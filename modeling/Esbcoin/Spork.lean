import Esbcoin.Lib.Newest
import Esbcoin.SignedText
import Mathlib.Data.Int.Order.Basic

/-!
# Active sporks

`ProcessSpork` and `CSporkManager` (`src/spork.cpp`): a node keeps for each identifier the message
that is signed by the key of the network with the largest time, and the node of the key holder the
one it signed last or what comes behind it in time. What a new spork runs (`ExecuteSpork`) is left
out: it does not touch the sporks.
-/

namespace Esbcoin

open List

/-- What sporks are checked against: the verification of a text, `Params().SporkKey()` and
`HashKeccak256` of the numbers. -/
structure SporkEnv where
  verify : VerifyMessage
  sporkKey : List UInt8
  hashNumbers : Int32 → Int64 → Int64 → UInt256

/-- `CSporkMessage::GetHash` (`spork.h:90-94`). -/
def CSporkMessage.getHash (env : SporkEnv) (spork : CSporkMessage) : UInt256 :=
  env.hashNumbers spork.nSporkID spork.nValue spork.nTimeSigned

/-- `mapSporks` and `mapSporksActive` (`spork.cpp:24-25`). -/
structure SporkMaps where
  mapSporks : AssocMap UInt256 CSporkMessage := ∅
  mapSporksActive : AssocMap Int32 CSporkMessage := ∅

namespace SporkMaps

/-- Both maps with a spork. -/
def store (env : SporkEnv) (maps : SporkMaps) (spork : CSporkMessage) : SporkMaps where
  mapSporks := maps.mapSporks.insert (spork.getHash env) spork
  mapSporksActive := maps.mapSporksActive.insert spork.nSporkID spork

/-- What a received spork does to the peer and the network. -/
structure Reply where
  nDoS : Nat := 0
  relay : Bool := false

/-- `ProcessSpork` of a "spork" (`spork.cpp:34-66`). -/
def processSpork (env : SporkEnv) (fLiteMode hasTip : Bool) (maps : SporkMaps)
    (spork : CSporkMessage) : SporkMaps × Reply :=
  if fLiteMode then (maps, {})
  else if !hasTip then (maps, {})
  else if (maps.mapSporksActive.lookup spork.nSporkID).any fun active =>
      spork.nTimeSigned ≤ active.nTimeSigned then (maps, {})
  else if !spork.checkSignature env.verify env.sporkKey then (maps, { nDoS := 100 })
  else (maps.store env spork, { relay := true })

/-- `CSporkManager::Sign` (`spork.cpp:2605-2630`) with a key whose public key is `pubkey2`. -/
def sign (env : SporkEnv) (signMessage : List Char → Option (List UInt8)) (pubkey2 : List UInt8)
    (spork : CSporkMessage) : Option CSporkMessage :=
  (signMessage spork.strMessage).bind fun vchSig =>
    if env.verify pubkey2 vchSig spork.strMessage then some { spork with vchSig } else none

/-- `CSporkManager::UpdateSpork` (`spork.cpp:2632-2647`) at the time `now`; `none` if it fails. -/
def updateSpork (env : SporkEnv) (signMessage : List Char → Option (List UInt8))
    (pubkey2 : List UInt8) (maps : SporkMaps) (nSporkID : Int32) (nValue now : Int64) :
    Option SporkMaps :=
  (sign env signMessage pubkey2 { vchSig := [], nSporkID, nValue, nTimeSigned := now }).map
    (maps.store env)

/-- The active value of a spork; `none` is the default of `GetSporkValue` (`spork.cpp:86-110`). -/
def activeValue (maps : SporkMaps) (nSporkID : Int32) : Option Int64 :=
  (maps.mapSporksActive.lookup nSporkID).map CSporkMessage.nValue

end SporkMaps

/-! ## The network -/

/-- A call of `UpdateSpork` and its time. -/
structure SporkIssue where
  nSporkID : Int32
  nValue : Int64
  nTime : Int64

namespace SporkIssue

/-- The message before it is signed. -/
def unsigned (issue : SporkIssue) : CSporkMessage :=
  { vchSig := [], nSporkID := issue.nSporkID, nValue := issue.nValue, nTimeSigned := issue.nTime }

/-- The message with a signature. -/
def signed (issue : SporkIssue) (vchSig : List UInt8) : CSporkMessage :=
  { issue.unsigned with vchSig }

/-- The last issue for an identifier. -/
def lastOf (issued : List SporkIssue) (nSporkID : Int32) : Option SporkIssue :=
  (issued.filter fun issue => issue.nSporkID == nSporkID).getLast?

end SporkIssue

/-- The holder of the key: what it signs is good for the key of the network. -/
structure KeyHolder (env : SporkEnv) where
  signMessage : List Char → Option (List UInt8)
  signs : ∀ text, ∃ vchSig, signMessage text = some vchSig ∧
    env.verify env.sporkKey vchSig text = true

/-- What happens at the node of the key holder. -/
inductive SporkEvent
  | update (issue : SporkIssue)
  | receive (spork : CSporkMessage)

namespace SporkEvent

/-- The issue of an event of the key holder. -/
def issue? : SporkEvent → Option SporkIssue
  | update issue => some issue
  | receive _ => none

/-- A received spork of this identifier that is signed. -/
def heard? (env : SporkEnv) (nSporkID : Int32) : SporkEvent → Option CSporkMessage
  | update _ => none
  | receive spork =>
    if spork.nSporkID = nSporkID ∧ spork.checkSignature env.verify env.sporkKey = true then
      some spork
    else none

end SporkEvent

namespace SporkMaps

variable (env : SporkEnv)

/-- A full node with a chain receives a spork. -/
def receive (maps : SporkMaps) (spork : CSporkMessage) : SporkMaps :=
  (processSpork env false true maps spork).1

variable {env} (holder : KeyHolder env)

/-- A step of the key holder's node. -/
def step (maps : SporkMaps) : SporkEvent → SporkMaps
  | .update issue =>
    (updateSpork env holder.signMessage env.sporkKey maps issue.nSporkID issue.nValue
      issue.nTime).getD maps
  | .receive spork => maps.receive env spork

end SporkMaps

section Network

variable {env : SporkEnv} (holder : KeyHolder env)

/-- The messages that reach a node: all that were issued, and others that are not signed or have the
text of one that was. -/
structure SporksDelivered (issued : List SporkIssue) (delivered : List CSporkMessage) : Prop where
  all : ∀ issue ∈ issued, ∃ spork ∈ delivered,
    SporkMaps.sign env holder.signMessage env.sporkKey issue.unsigned = some spork
  unforged : ∀ spork ∈ delivered, spork.checkSignature env.verify env.sporkKey = true →
    ∃ issue ∈ issued, spork.strMessage = issue.unsigned.strMessage

/-- What the key holder receives is not signed or has the text of what it issued before. -/
def Unforged (env : SporkEnv) (events : List SporkEvent) : Prop :=
  ∀ before spork after, events = before ++ .receive spork :: after →
    spork.checkSignature env.verify env.sporkKey = true →
    ∃ issue ∈ before.filterMap SporkEvent.issue?, spork.strMessage = issue.unsigned.strMessage

/-- All nodes have the values that were issued last, the node of the key holder included. -/
structure SporksAgree (issued : List SporkIssue) : Prop where
  nodes : ∀ delivered, SporksDelivered holder issued delivered → ∀ nSporkID last,
    SporkIssue.lastOf issued nSporkID = some last →
    (delivered.foldl (SporkMaps.receive env) {}).activeValue nSporkID = some last.nValue
  signer : ∀ events, events.filterMap SporkEvent.issue? = issued → Unforged env events →
    ∀ nSporkID last, SporkIssue.lastOf issued nSporkID = some last →
    (events.foldl (SporkMaps.step holder) {}).activeValue nSporkID = some last.nValue

/-- Every message of an issued spork that an issued text can be cut into has the last value of the
spork, if it is later than its last issue or no issue of it is later. -/
def LastIsNewest (issued : List SporkIssue) : Prop :=
  ∀ (spork : CSporkMessage) (last : SporkIssue),
    (∃ issue ∈ issued, spork.strMessage = issue.unsigned.strMessage) →
    SporkIssue.lastOf issued spork.nSporkID = some last →
    (last.nTime < spork.nTimeSigned ∨ ∀ issue ∈ issued, issue.nSporkID = spork.nSporkID →
      issue.nTime ≤ spork.nTimeSigned) → spork.nValue = last.nValue

end Network

/-! ## One spork of a node -/

namespace SporkMaps

variable {env : SporkEnv} {holder : KeyHolder env} {maps : SporkMaps} {nSporkID : Int32}

/-- The time of a message as a number. -/
def stamp (spork : CSporkMessage) : Int := spork.nTimeSigned.toInt

theorem stamp_le_iff {spork spork' : CSporkMessage} :
    stamp spork ≤ stamp spork' ↔ spork.nTimeSigned ≤ spork'.nTimeSigned :=
  Int64.le_iff_toInt_le.symm

theorem stamp_lt_iff {spork spork' : CSporkMessage} :
    stamp spork < stamp spork' ↔ spork.nTimeSigned < spork'.nTimeSigned :=
  Int64.lt_iff_toInt_lt.symm

theorem lookup_store (spork : CSporkMessage) :
    (maps.store env spork).mapSporksActive.lookup nSporkID =
      if nSporkID = spork.nSporkID then some spork else maps.mapSporksActive.lookup nSporkID :=
  AssocMap.lookup_insert_eq _ _ _ _

/-- A full node stores what is newer and signed. -/
theorem receive_eq (spork : CSporkMessage) :
    maps.receive env spork =
      if (maps.mapSporksActive.lookup spork.nSporkID).any
          (fun active => spork.nTimeSigned ≤ active.nTimeSigned) = false ∧
        spork.checkSignature env.verify env.sporkKey = true then maps.store env spork
      else maps := by
  unfold receive processSpork
  rw [if_neg Bool.false_ne_true, if_neg (by decide)]
  cases (maps.mapSporksActive.lookup spork.nSporkID).any
    (fun active => spork.nTimeSigned ≤ active.nTimeSigned) with
  | true =>
    rw [if_pos rfl, if_neg (fun both => Bool.false_ne_true both.1.symm)]
  | false =>
    cases spork.checkSignature env.verify env.sporkKey with
    | false => rfl
    | true => rfl

theorem lookup_receive (env : SporkEnv) (maps : SporkMaps) (nSporkID : Int32)
    (spork : CSporkMessage) :
    (maps.receive env spork).mapSporksActive.lookup nSporkID =
      if spork.nSporkID = nSporkID ∧ spork.checkSignature env.verify env.sporkKey = true then
        keepNewer stamp (maps.mapSporksActive.lookup nSporkID) spork
      else maps.mapSporksActive.lookup nSporkID := by
  rw [receive_eq]
  by_cases own : spork.nSporkID = nSporkID
  · subst own
    by_cases good : spork.checkSignature env.verify env.sporkKey = true
    · have heard : spork.nSporkID = spork.nSporkID ∧
          spork.checkSignature env.verify env.sporkKey = true := ⟨rfl, good⟩
      rw [if_pos heard]
      unfold keepNewer
      cases held : maps.mapSporksActive.lookup spork.nSporkID with
      | none =>
        rw [if_pos ⟨rfl, good⟩, lookup_store, if_pos rfl]
      | some active =>
        dsimp only
        by_cases older : spork.nTimeSigned ≤ active.nTimeSigned
        · rw [if_neg (fun both => by simp [older] at both), if_pos (stamp_le_iff.mpr older)]
          exact held
        · rw [if_pos ⟨decide_eq_false older, good⟩, lookup_store, if_pos rfl,
            if_neg fun less => older (stamp_le_iff.mp less)]
    · rw [if_neg fun both => good both.2, if_neg fun both => good both.2]
  · have other : ¬ (spork.nSporkID = nSporkID ∧
        spork.checkSignature env.verify env.sporkKey = true) := fun both => own both.1
    split
    · rw [lookup_store, if_neg fun equal => own equal.symm]
    · rfl

theorem step_update (holder : KeyHolder env) (maps : SporkMaps) (issue : SporkIssue) : ∃ vchSig,
    sign env holder.signMessage env.sporkKey issue.unsigned = some (issue.signed vchSig) ∧
      (issue.signed vchSig).checkSignature env.verify env.sporkKey = true ∧
      step holder maps (.update issue) = maps.store env (issue.signed vchSig) := by
  obtain ⟨vchSig, found, good⟩ := holder.signs issue.unsigned.strMessage
  have message : sign env holder.signMessage env.sporkKey issue.unsigned =
      some (issue.signed vchSig) := by
    rw [sign, found, Option.bind_some, if_pos good]
    rfl
  refine ⟨vchSig, message, good, ?_⟩
  show ((sign env holder.signMessage env.sporkKey issue.unsigned).map (maps.store env)).getD maps =
    _
  rw [message]
  rfl

/-- Without an update of a spork, the node keeps the newest of what it hears of it. -/
theorem lookup_foldl_step (holder : KeyHolder env) {events : List SporkEvent}
    (others : ∀ issue, .update issue ∈ events → issue.nSporkID ≠ nSporkID) (maps : SporkMaps) :
    (events.foldl (step holder) maps).mapSporksActive.lookup nSporkID =
      (events.filterMap (SporkEvent.heard? env nSporkID)).foldl (keepNewer stamp)
        (maps.mapSporksActive.lookup nSporkID) := by
  induction events generalizing maps with
  | nil => rfl
  | cons event events ih =>
    have rest := ih (fun issue member => others issue (mem_cons_of_mem _ member))
      (step holder maps event)
    rw [foldl_cons, rest]
    cases event with
    | update issue =>
      obtain ⟨vchSig, -, -, stored⟩ := step_update holder maps issue
      have differs := others issue mem_cons_self
      have kept : (maps.store env (issue.signed vchSig)).mapSporksActive.lookup nSporkID =
          maps.mapSporksActive.lookup nSporkID :=
        (lookup_store _).trans (if_neg fun equal => differs equal.symm)
      rw [stored, kept]
      rfl
    | receive spork =>
      have received := lookup_receive env maps nSporkID spork
      rw [step, received, filterMap_cons, SporkEvent.heard?]
      split <;> rfl

theorem mem_heard {events : List SporkEvent} {spork : CSporkMessage} :
    spork ∈ events.filterMap (SporkEvent.heard? env nSporkID) ↔
      .receive spork ∈ events ∧ spork.nSporkID = nSporkID ∧
        spork.checkSignature env.verify env.sporkKey = true := by
  rw [mem_filterMap]
  constructor
  · rintro ⟨event, member, heard⟩
    cases event with
    | update issue => cases heard
    | receive spork' =>
      unfold SporkEvent.heard? at heard
      dsimp only at heard
      split at heard
      · obtain rfl := Option.some.inj heard
        exact ⟨member, ‹_›⟩
      · cases heard
  · rintro ⟨member, heard⟩
    exact ⟨.receive spork, member, if_pos heard⟩

/-- A node that only receives. -/
theorem lookup_foldl_receive (holder : KeyHolder env) (delivered : List CSporkMessage)
    (maps : SporkMaps) (nSporkID : Int32) :
    (delivered.foldl (receive env) maps).mapSporksActive.lookup nSporkID =
      ((delivered.map SporkEvent.receive).filterMap (SporkEvent.heard? env nSporkID)).foldl
        (keepNewer stamp) (maps.mapSporksActive.lookup nSporkID) := by
  have run : delivered.foldl (receive env) maps =
      (delivered.map SporkEvent.receive).foldl (step holder) maps := by
    rw [foldl_map]
    rfl
  rw [run]
  apply lookup_foldl_step holder
  intro issue member
  rw [mem_map] at member
  obtain ⟨_, -, absurd⟩ := member
  cases absurd

end SporkMaps

namespace SporkIssue

variable {issued : List SporkIssue} {nSporkID : Int32}

theorem lastOf_append (issued : List SporkIssue) (issue : SporkIssue) (nSporkID : Int32) :
    lastOf (issued ++ [issue]) nSporkID =
      if issue.nSporkID = nSporkID then some issue else lastOf issued nSporkID := by
  unfold lastOf
  rw [filter_append, filter_singleton]
  by_cases same : issue.nSporkID = nSporkID
  · rw [if_pos same, beq_iff_eq.mpr same, cond_true, List.getLast?_append]
    rfl
  · rw [if_neg same, beq_eq_false_iff_ne.mpr same, cond_false, append_nil]

theorem mem_of_lastOf {last : SporkIssue} (found : lastOf issued nSporkID = some last) :
    last ∈ issued ∧ last.nSporkID = nSporkID := by
  have member := mem_of_getLast? found
  rw [mem_filter, beq_iff_eq] at member
  exact member

end SporkIssue

section Network

variable {env : SporkEnv} {holder : KeyHolder env} {issued : List SporkIssue}

variable {events : List SporkEvent} {spork : CSporkMessage}

theorem split_last_update {nSporkID : Int32} {last : SporkIssue}
    (found : SporkIssue.lastOf (events.filterMap SporkEvent.issue?) nSporkID = some last) :
    ∃ before after, events = before ++ .update last :: after ∧
      ∀ issue, .update issue ∈ after → issue.nSporkID ≠ nSporkID := by
  induction events using List.reverseRecOn with
  | nil => cases found
  | append_singleton events event ih =>
    rw [filterMap_append] at found
    cases event with
    | receive spork =>
      rw [show [SporkEvent.receive spork].filterMap SporkEvent.issue? = [] from rfl,
        append_nil] at found
      obtain ⟨before, after, rfl, others⟩ := ih found
      refine ⟨before, after ++ [.receive spork], by rw [append_assoc, cons_append], ?_⟩
      intro issue member
      rcases mem_append.mp member with old | new
      · exact others issue old
      · cases mem_singleton.mp new
    | update issue =>
      rw [show [SporkEvent.update issue].filterMap SporkEvent.issue? = [issue] from rfl,
        SporkIssue.lastOf_append] at found
      split at found
      · obtain rfl := Option.some.inj found
        refine ⟨events, [], rfl, ?_⟩
        intro issue member
        cases member
      rename_i differs
      obtain ⟨before, after, rfl, others⟩ := ih found
      refine ⟨before, after ++ [.update issue], by rw [append_assoc, cons_append], ?_⟩
      intro issue' member
      rcases mem_append.mp member with old | new
      · exact others issue' old
      · cases mem_singleton.mp new
        exact differs

/-- The message of an issue reaches every node. -/
theorem SporksDelivered.issued_heard {delivered : List CSporkMessage}
    (reached : SporksDelivered holder issued delivered) {issue : SporkIssue}
    (member : issue ∈ issued) : ∃ vchSig, issue.signed vchSig ∈
      (delivered.map SporkEvent.receive).filterMap (SporkEvent.heard? env issue.nSporkID) := by
  obtain ⟨spork, came, signed⟩ := reached.all issue member
  obtain ⟨vchSig, message, good, -⟩ := SporkMaps.step_update holder {} issue
  obtain rfl := Option.some.inj (message.symm.trans signed)
  exact ⟨vchSig, SporkMaps.mem_heard.mpr ⟨mem_map_of_mem came, rfl, good⟩⟩

/-- What a node of the network holds in the end is the newest of what reached it. -/
theorem nodes_agree (newest : LastIsNewest issued) {delivered : List CSporkMessage}
    (reached : SporksDelivered holder issued delivered) {nSporkID : Int32} {last : SporkIssue}
    (found : SporkIssue.lastOf issued nSporkID = some last) :
    (delivered.foldl (SporkMaps.receive env) {}).activeValue nSporkID = some last.nValue := by
  have run := SporkMaps.lookup_foldl_receive holder delivered {} nSporkID
  obtain ⟨member, rfl⟩ := SporkIssue.mem_of_lastOf found
  obtain ⟨vchSig, heard⟩ := reached.issued_heard member
  obtain ⟨spork, held⟩ := foldl_keepNewer_isSome SporkMaps.stamp (ne_nil_of_mem heard)
  obtain ⟨inside, largest⟩ := foldl_keepNewer_none held
  obtain ⟨came, own, good⟩ := SporkMaps.mem_heard.mp inside
  obtain ⟨spork', reaches, same⟩ := mem_map.mp came
  obtain rfl := SporkEvent.receive.inj same
  have value : spork'.nValue = last.nValue := by
    refine newest spork' last (reached.unforged spork' reaches good) (own ▸ found) (Or.inr ?_)
    intro issue issuedIn ofSpork
    obtain ⟨vchSig, heard⟩ := reached.issued_heard issuedIn
    rw [ofSpork, own] at heard
    have older := SporkMaps.stamp_le_iff.mp (largest _ heard)
    exact older
  rw [SporkMaps.activeValue, run.trans held, Option.map_some, value]

/-- What the key holder hears has the text of what it issued. -/
theorem Unforged.text (unforged : Unforged env events) {nSporkID : Int32}
    (heard : spork ∈ events.filterMap (SporkEvent.heard? env nSporkID)) :
    spork.nSporkID = nSporkID ∧ ∃ issue ∈ events.filterMap SporkEvent.issue?,
      spork.strMessage = issue.unsigned.strMessage := by
  obtain ⟨came, own, good⟩ := SporkMaps.mem_heard.mp heard
  obtain ⟨before, after, rfl⟩ := append_of_mem came
  obtain ⟨issue, member, text⟩ := unforged before spork after rfl good
  refine ⟨own, issue, ?_, text⟩
  rw [filterMap_append]
  exact mem_append_left _ member

/-- Behind its last update the key holder keeps the newest of what it hears. -/
theorem lookup_last (holder : KeyHolder env) {nSporkID : Int32} {last : SporkIssue}
    (found : SporkIssue.lastOf (events.filterMap SporkEvent.issue?) nSporkID = some last) :
    ∃ vchSig heard, heard ⊆ events.filterMap (SporkEvent.heard? env nSporkID) ∧
      (events.foldl (SporkMaps.step holder) {}).mapSporksActive.lookup nSporkID =
        heard.foldl (keepNewer SporkMaps.stamp) (some (last.signed vchSig)) := by
  obtain ⟨before, after, rfl, others⟩ := split_last_update found
  obtain ⟨-, own⟩ := SporkIssue.mem_of_lastOf found
  obtain ⟨vchSig, -, -, stored⟩ :=
    SporkMaps.step_update holder (before.foldl (SporkMaps.step holder) {}) last
  have start : (SporkMaps.step holder (before.foldl (SporkMaps.step holder) {})
      (.update last)).mapSporksActive.lookup nSporkID = some (last.signed vchSig) := by
    rw [stored, SporkMaps.lookup_store]
    exact if_pos own.symm
  refine ⟨vchSig, after.filterMap (SporkEvent.heard? env nSporkID), ?_, ?_⟩
  · rw [filterMap_append, filterMap_cons]
    exact subset_append_right _ _
  · rw [foldl_append, foldl_cons, SporkMaps.lookup_foldl_step holder others, start]

/-- The node of the key holder keeps the value of its last issue. -/
theorem signer_agrees (newest : LastIsNewest issued)
    (issues : events.filterMap SporkEvent.issue? = issued) (unforged : Unforged env events)
    {nSporkID : Int32} {last : SporkIssue} (found : SporkIssue.lastOf issued nSporkID = some last) :
    (events.foldl (SporkMaps.step holder) {}).activeValue nSporkID = some last.nValue := by
  subst issues
  obtain ⟨vchSig, heard, inside, run⟩ := lookup_last holder found
  obtain ⟨spork, kept, -, origin, -⟩ :=
    foldl_keepNewer_some SporkMaps.stamp heard (last.signed vchSig)
  rw [SporkMaps.activeValue, run, kept, Option.map_some]
  rcases origin with rfl | ⟨member, newer⟩
  · rfl
  · obtain ⟨rfl, text⟩ := unforged.text (inside member)
    have later := SporkMaps.stamp_lt_iff.mp newer
    rw [newest spork last text found (Or.inl later)]

/-! ## The worst order -/

/-- The updates alone. -/
theorem issues_updates (issued : List SporkIssue) :
    (issued.map SporkEvent.update).filterMap SporkEvent.issue? = issued := by
  rw [filterMap_map]
  exact filterMap_some

theorem heard_updates (issued : List SporkIssue) (nSporkID : Int32) :
    (issued.map SporkEvent.update).filterMap (SporkEvent.heard? env nSporkID) = [] := by
  rw [filterMap_eq_nil_iff]
  intro event member
  obtain ⟨issue, -, rfl⟩ := mem_map.mp member
  rfl

theorem unforged_updates (issued : List SporkIssue)
    (text : ∃ issue ∈ issued, spork.strMessage = issue.unsigned.strMessage) :
    Unforged env (issued.map SporkEvent.update ++ [.receive spork]) := by
  intro before spork' after split good
  have none : .receive spork' ∉ issued.map SporkEvent.update := by
    intro member
    obtain ⟨issue, -, absurd⟩ := mem_map.mp member
    cases absurd
  rcases eq_nil_or_concat' after with rfl | ⟨after, event, rfl⟩
  · obtain ⟨updates, same⟩ := append_inj' split rfl
    obtain rfl := SporkEvent.receive.inj (List.cons.inj same).1
    rw [← updates, issues_updates]
    exact text
  rw [← cons_append, ← append_assoc] at split
  obtain ⟨updates, -⟩ := append_inj' split rfl
  refine absurd ?_ none
  rw [updates]
  exact mem_append_right _ mem_cons_self

theorem signer_hears (agree : SporksAgree holder issued)
    (good : spork.checkSignature env.verify env.sporkKey = true)
    (text : ∃ issue ∈ issued, spork.strMessage = issue.unsigned.strMessage) {last : SporkIssue}
    (found : SporkIssue.lastOf issued spork.nSporkID = some last)
    (newer : last.nTime < spork.nTimeSigned) : spork.nValue = last.nValue := by
  have issues : (issued.map SporkEvent.update ++ [SporkEvent.receive spork]).filterMap
      SporkEvent.issue? = issued := by
    rw [filterMap_append, issues_updates]
    exact append_nil _
  have value := agree.signer _ issues (unforged_updates issued text) spork.nSporkID last found
  rw [← issues_updates issued] at found
  obtain ⟨vchSig, heard, inside, run⟩ := lookup_last holder found
  rw [heard_updates, subset_nil] at inside
  have hears := SporkMaps.lookup_receive env
    ((issued.map SporkEvent.update).foldl (SporkMaps.step holder) {}) spork.nSporkID spork
  have later : ¬ SporkMaps.stamp spork ≤ SporkMaps.stamp (last.signed vchSig) :=
    not_le_of_gt (SporkMaps.stamp_lt_iff.mpr newer)
  have kept : keepNewer SporkMaps.stamp (some (last.signed vchSig)) spork = some spork :=
    if_neg later
  rw [if_pos ⟨rfl, good⟩, run, inside, foldl_nil, kept] at hears
  rw [foldl_append, SporkMaps.activeValue] at value
  exact Option.some.inj ((congrArg (Option.map CSporkMessage.nValue) hears).symm.trans value)

/-- The messages of the issues. -/
def KeyHolder.messages (holder : KeyHolder env) (issued : List SporkIssue) : List CSporkMessage :=
  issued.filterMap fun issue =>
    SporkMaps.sign env holder.signMessage env.sporkKey issue.unsigned

theorem KeyHolder.mem_messages (member : spork ∈ holder.messages issued) :
    ∃ issue ∈ issued, ∃ vchSig, spork = issue.signed vchSig := by
  obtain ⟨issue, inside, message⟩ := mem_filterMap.mp member
  obtain ⟨vchSig, found, -⟩ := SporkMaps.step_update holder {} issue
  exact ⟨issue, inside, vchSig, Option.some.inj (message.symm.trans found)⟩

theorem delivered_messages (holder : KeyHolder env) (issued : List SporkIssue) :
    SporksDelivered holder issued (holder.messages issued) := by
  constructor
  · intro issue member
    obtain ⟨vchSig, found, -⟩ := SporkMaps.step_update holder {} issue
    exact ⟨_, mem_filterMap.mpr ⟨issue, member, found⟩, found⟩
  · intro spork member _
    obtain ⟨issue, inside, vchSig, rfl⟩ := holder.mem_messages member
    exact ⟨issue, inside, rfl⟩

/-- A node hears a message with the text of an issue first. -/
theorem delivered_behind (text : ∃ issue ∈ issued, spork.strMessage = issue.unsigned.strMessage) :
    SporksDelivered holder issued (spork :: holder.messages issued) := by
  have rest := delivered_messages holder issued
  constructor
  · intro issue member
    obtain ⟨spork', inside, signed⟩ := rest.all issue member
    exact ⟨spork', mem_cons_of_mem _ inside, signed⟩
  · exact forall_mem_cons.mpr ⟨fun _ => text, rest.unforged⟩

theorem node_hears (agree : SporksAgree holder issued)
    (good : spork.checkSignature env.verify env.sporkKey = true)
    (text : ∃ issue ∈ issued, spork.strMessage = issue.unsigned.strMessage) {last : SporkIssue}
    (found : SporkIssue.lastOf issued spork.nSporkID = some last)
    (newest : ∀ issue ∈ issued, issue.nSporkID = spork.nSporkID →
      issue.nTime ≤ spork.nTimeSigned) : spork.nValue = last.nValue := by
  have run := SporkMaps.lookup_foldl_receive holder (spork :: holder.messages issued) {}
    spork.nSporkID
  have first : SporkEvent.heard? env spork.nSporkID (.receive spork) = some spork :=
    if_pos ⟨rfl, good⟩
  have older : ∀ spork' ∈ ((holder.messages issued).map SporkEvent.receive).filterMap
      (SporkEvent.heard? env spork.nSporkID), SporkMaps.stamp spork' ≤ SporkMaps.stamp spork := by
    intro spork' heard
    obtain ⟨came, own, -⟩ := SporkMaps.mem_heard.mp heard
    obtain ⟨spork'', inside, same⟩ := mem_map.mp came
    obtain rfl := SporkEvent.receive.inj same
    obtain ⟨issue, issuedIn, vchSig, rfl⟩ := holder.mem_messages inside
    exact SporkMaps.stamp_le_iff.mpr (newest issue issuedIn own)
  rw [map_cons, filterMap_cons, first] at run
  have held := run.trans (foldl_keepNewer_of_le older)
  have value := agree.nodes _ (delivered_behind text) spork.nSporkID last found
  rw [SporkMaps.activeValue, held, Option.map_some] at value
  exact Option.some.inj value

/-- All nodes have the values that were issued last, in whatever order the messages reach them,
exactly when the last issue of each spork is the newest message that the issued texts make. -/
theorem sporks_agree_iff (holder : KeyHolder env) (issued : List SporkIssue) :
    SporksAgree holder issued ↔ LastIsNewest issued := by
  constructor
  · rintro agree spork last ⟨issue, member, text⟩ found latest
    obtain ⟨vchSig, -, good⟩ := holder.signs issue.unsigned.strMessage
    -- the signature of the issue is good for every message with its text
    have good' : ({ spork with vchSig } : CSporkMessage).checkSignature env.verify env.sporkKey =
        true := (congrArg (env.verify env.sporkKey vchSig) text).trans good
    have text' : ∃ issue ∈ issued,
        ({ spork with vchSig } : CSporkMessage).strMessage = issue.unsigned.strMessage :=
      ⟨issue, member, text⟩
    rcases latest with newer | newest
    · exact signer_hears agree good' text' found newer
    · exact node_hears agree good' text' found newest
  · intro newest
    constructor
    · intro delivered reached nSporkID last found
      exact nodes_agree newest reached found
    · intro events issues unforged nSporkID last found
      exact signer_agrees newest issues unforged found

end Network

/-! ## Two issues of one second -/

def textSigned : SporkEnv where
  verify _ vchSig text := decide (vchSig = text.map fun char => UInt8.ofNat char.toNat)
  sporkKey := []
  hashNumbers _ _ _ := 0

def textHolder : KeyHolder textSigned where
  signMessage text := some (text.map fun char => UInt8.ofNat char.toNat)
  signs _ := ⟨_, rfl, decide_eq_true rfl⟩

def twoIssues : List SporkIssue := [⟨10009, 1, 1554746400⟩, ⟨10009, 2, 1554746400⟩]

/-- A node that hears the first issue first keeps it. -/
theorem first_issue_kept : ¬ SporksAgree textHolder twoIssues := by
  intro agree
  have value := agree.nodes _ (delivered_messages textHolder twoIssues) 10009
    ⟨10009, 2, 1554746400⟩ rfl
  revert value
  decide +kernel

end Esbcoin
