import Esbcoin.Wallet.SelectCoins

/-!
# The rounds of an input

Rendering of `CWallet::GetRealInputObfuscationRounds` (`src/wallet.cpp:824-901`): how deep the chain
of denominated transactions below an output is. The recursion stops after sixteen outputs, and what
it finds is kept for later calls.
-/

namespace Esbcoin

open List

/-- The transactions of the wallet, and whose an output is. -/
structure RoundsEnv where
  mapWallet : AssocMap UInt256 CTransaction
  isMine : CTxOut → IsMineType

/-- `mDenomWtxes`: of a cached transaction `nRounds` of every output, `-10` where it is not known
yet (`primitives/transaction.h:140`). -/
abbrev DenomWtxes := AssocMap UInt256 (List Int)

section Model

variable (env : RoundsEnv)

/-- `IsMine` of an input (`wallet.cpp:795-807`). -/
def RoundsEnv.isMineInput (txin : CTxIn) : IsMineType :=
  match env.mapWallet.lookup txin.prevout.hash with
  | some prev =>
    match prev.vout[txin.prevout.n.toNat]? with
    | some out => env.isMine out
    | none => .no
  | none => .no

/-- `mDenomWtxes[hash].vout[nout].nRounds = nRounds`, and what is returned then; `none` where there
is no such output. -/
def storeRounds (mDenomWtxes : DenomWtxes) (prevout : COutPoint) (nRounds : Int) :
    Option (Int × DenomWtxes) :=
  let vout := (mDenomWtxes.lookup prevout.hash).getD []
  if prevout.n.toNat < vout.length then
    some (nRounds, mDenomWtxes.insert prevout.hash (vout.set prevout.n.toNat nRounds))
  else none

/-- The loop over the inputs (`wallet.cpp:883-892`): `nShortest`, `fDenomFound` and the cache. -/
def shortestRounds (visit : DenomWtxes → COutPoint → Option (Int × DenomWtxes)) :
    List CTxIn → Int → Bool → DenomWtxes → Option (Int × Bool × DenomWtxes)
  | [], nShortest, fDenomFound, mDenomWtxes => some (nShortest, fDenomFound, mDenomWtxes)
  | in2 :: vin, nShortest, fDenomFound, mDenomWtxes =>
    if env.isMineInput in2 = .no then
      shortestRounds visit vin nShortest fDenomFound mDenomWtxes
    else
      match visit mDenomWtxes in2.prevout with
      | none => none
      | some (n, mDenomWtxes) =>
        if n ≥ 0 ∧ (n < nShortest ∨ nShortest = -10) then
          shortestRounds visit vin n true mDenomWtxes
        else shortestRounds visit vin nShortest fDenomFound mDenomWtxes

/-- What is done for an output that the cache says nothing about (`wallet.cpp:848-897`). -/
def computeRounds (visit : DenomWtxes → COutPoint → Option (Int × DenomWtxes))
    (wtx : CTransaction) (mDenomWtxes : DenomWtxes) (prevout : COutPoint) :
    Option (Int × DenomWtxes) :=
  match wtx.vout[prevout.n.toNat]? with
  | none => some (-4, mDenomWtxes)
  | some out =>
    if isCollateralAmount out.nValue then storeRounds mDenomWtxes prevout (-3)
    else if !isDenominatedAmount out.nValue then storeRounds mDenomWtxes prevout (-2)
    else if !wtx.vout.all fun out => isDenominatedAmount out.nValue then
      storeRounds mDenomWtxes prevout 0
    else
      match shortestRounds env visit wtx.vin (-10) false mDenomWtxes with
      | none => none
      | some (nShortest, fDenomFound, mDenomWtxes) =>
        storeRounds mDenomWtxes prevout
          (if fDenomFound then if nShortest ≥ 15 then 16 else nShortest + 1 else 0)

/-- `GetRealInputObfuscationRounds` where `rounds` is so much less than sixteen; `none` where an
output is read that the cached transaction does not have. -/
def roundsWithin : Nat → DenomWtxes → COutPoint → Option (Int × DenomWtxes)
  | 0, mDenomWtxes, _ => some (15, mDenomWtxes)
  | left + 1, mDenomWtxes, prevout =>
    match env.mapWallet.lookup prevout.hash with
    | none => some (15 - left - 1, mDenomWtxes)
    | some wtx =>
      match mDenomWtxes.lookup prevout.hash with
      | none =>
        computeRounds env (roundsWithin left) wtx
          (mDenomWtxes.insert prevout.hash (wtx.vout.map fun _ => -10)) prevout
      | some vout =>
        match vout[prevout.n.toNat]? with
        | none => none
        | some nRounds =>
          if nRounds ≠ -10 then some (nRounds, mDenomWtxes)
          else computeRounds env (roundsWithin left) wtx mDenomWtxes prevout

/-- `CWallet::GetRealInputObfuscationRounds` (`wallet.cpp:824-901`). -/
def getRealInputObfuscationRounds (mDenomWtxes : DenomWtxes) (prevout : COutPoint)
    (rounds : Nat) : Option (Int × DenomWtxes) :=
  roundsWithin env (16 - rounds) mDenomWtxes prevout

/-- The answers to a sequence of queries. -/
def askRounds : DenomWtxes → List COutPoint → Option (List Int)
  | _, [] => some []
  | mDenomWtxes, prevout :: queries =>
    match getRealInputObfuscationRounds env mDenomWtxes prevout 0 with
    | none => none
    | some (n, mDenomWtxes) => (askRounds mDenomWtxes queries).map fun values => n :: values

end Model

/-! ## What the rounds are -/

section Rounds

variable (env : RoundsEnv)

/-- The rounds of an output that is no output of a fully denominated transaction, or else the owned
inputs of its transaction. -/
def outputCase (prevout : COutPoint) : Int ⊕ List COutPoint :=
  match env.mapWallet.lookup prevout.hash with
  | none => .inl (-1)
  | some wtx =>
    match wtx.vout[prevout.n.toNat]? with
    | none => .inl (-4)
    | some out =>
      if isCollateralAmount out.nValue then .inl (-3)
      else if !isDenominatedAmount out.nValue then .inl (-2)
      else if !wtx.vout.all fun out => isDenominatedAmount out.nValue then .inl 0
      else .inr ((wtx.vin.filter fun in2 => env.isMineInput in2 ≠ .no).map CTxIn.prevout)

/-- One more than the smallest of the values that are not negative, or none, and sixteen at most. -/
def oneMore (values : List Int) : Int :=
  match (values.filter fun n => decide (0 ≤ n)).min? with
  | none => 0
  | some n => min (n + 1) 16

/-- The rounds of an output. -/
inductive Rounds : COutPoint → Int → Prop
  | given {prevout : COutPoint} {n : Int} (fixed : outputCase env prevout = .inl n) :
    Rounds prevout n
  | chain {prevout : COutPoint} {inputs : List COutPoint} (value : COutPoint → Int)
    (below : outputCase env prevout = .inr inputs)
    (rounds : ∀ input ∈ inputs, Rounds input (value input)) :
    Rounds prevout (oneMore (inputs.map value))

/-- Do so many owned inputs follow one another below an output? -/
def chainOf : Nat → COutPoint → Bool
  | 0, _ => true
  | length + 1, prevout =>
    match outputCase env prevout with
    | .inl _ => false
    | .inr inputs => inputs.any (chainOf length)

/-- The output is there, or the cache has nothing of its transaction. -/
def withinCached (mDenomWtxes : DenomWtxes) (prevout : COutPoint) : Bool :=
  match mDenomWtxes.lookup prevout.hash with
  | none => true
  | some vout => decide (prevout.n.toNat < vout.length)

/-- No query has a chain of sixteen below it, or goes past the outputs of a cached transaction. -/
def askWithin : DenomWtxes → List COutPoint → Bool
  | _, [] => true
  | mDenomWtxes, prevout :: queries =>
    !chainOf env 16 prevout && withinCached mDenomWtxes prevout &&
      match getRealInputObfuscationRounds env mDenomWtxes prevout 0 with
      | none => true
      | some (_, mDenomWtxes) => askWithin mDenomWtxes queries

variable {env}

/-- An output has one number of rounds. -/
theorem Rounds.unique {prevout : COutPoint} {n n' : Int} (rounds : Rounds env prevout n)
    (rounds' : Rounds env prevout n') : n = n' := by
  induction rounds generalizing n' with
  | given fixed =>
    cases rounds' with
    | given fixed' => exact Sum.inl.inj (fixed.symm.trans fixed')
    | chain value' below' => cases fixed.symm.trans below'
  | chain value below rounds ih =>
    cases rounds' with
    | given fixed' => cases below.symm.trans fixed'
    | chain value' below' rounds' =>
      obtain rfl := Sum.inr.inj (below.symm.trans below')
      have same := map_congr_left fun input member =>
        ih input member (rounds' input member)
      rw [same]

/-- An owned input is an output of a transaction of the wallet. -/
theorem filed_of_isMineInput {in2 : CTxIn} (mine : env.isMineInput in2 ≠ .no) :
    ∃ prev, env.mapWallet.lookup in2.prevout.hash = some prev ∧
      in2.prevout.n.toNat < prev.vout.length := by
  unfold RoundsEnv.isMineInput at mine
  split at mine
  · rename_i prev filed
    split at mine
    · rename_i out inside
      exact ⟨prev, filed, (List.getElem?_eq_some_iff.mp inside).1⟩
    · exact absurd rfl mine
  · exact absurd rfl mine

end Rounds

/-! ## The loop finds the smallest value -/

/-- What `nShortest` and `fDenomFound` are after these values. -/
structure Shortest (seen : List Int) (nShortest : Int) (fDenomFound : Bool) : Prop where
  unfound : fDenomFound = false → nShortest = -10 ∧ ∀ n ∈ seen, n < 0
  found : fDenomFound = true → nShortest ∈ seen ∧ 0 ≤ nShortest ∧ ∀ n ∈ seen, 0 ≤ n → nShortest ≤ n

theorem Shortest.next {seen : List Int} {nShortest n : Int} {fDenomFound : Bool}
    (shortest : Shortest seen nShortest fDenomFound) :
    if n ≥ 0 ∧ (n < nShortest ∨ nShortest = -10) then Shortest (seen ++ [n]) n true
    else Shortest (seen ++ [n]) nShortest fDenomFound := by
  have member : ∀ m, m ∈ seen ++ [n] ↔ m ∈ seen ∨ m = n := by simp
  cases fDenomFound with
  | false =>
    obtain ⟨initial, negative⟩ := shortest.unfound rfl
    split
    · refine ⟨by simp, fun _ => ⟨by simp, by omega, fun m inside nonneg => ?_⟩⟩
      rcases (member m).mp inside with old | rfl
      · exact absurd (negative m old) (by omega)
      · exact le_refl m
    refine ⟨fun _ => ⟨initial, fun m inside => ?_⟩, by simp⟩
    rcases (member m).mp inside with old | rfl
    · exact negative m old
    · omega
  | true =>
    obtain ⟨among, nonneg, least⟩ := shortest.found rfl
    split
    · refine ⟨by simp, fun _ => ⟨by simp, by omega, fun m inside nonneg' => ?_⟩⟩
      rcases (member m).mp inside with old | rfl
      · have := least m old nonneg'
        omega
      · exact le_refl m
    · refine ⟨by simp, fun _ => ⟨by simp [among], nonneg, fun m inside nonneg' => ?_⟩⟩
      rcases (member m).mp inside with old | rfl
      · exact least m old nonneg'
      · omega

/-- What is stored after the loop. -/
theorem Shortest.oneMore_eq {values : List Int} {nShortest : Int} {fDenomFound : Bool}
    (shortest : Shortest values nShortest fDenomFound) :
    (if fDenomFound then if nShortest ≥ 15 then 16 else nShortest + 1 else 0) = oneMore values := by
  cases fDenomFound with
  | false =>
    have none : values.filter (fun n => decide (0 ≤ n)) = [] := by
      rw [filter_eq_nil_iff]
      intro n member
      have := (shortest.unfound rfl).2 n member
      simp [this]
    rw [oneMore, none]
    rfl
  | true =>
    obtain ⟨among, nonneg, least⟩ := shortest.found rfl
    have smallest : (values.filter fun n => decide (0 ≤ n)).min? = some nShortest := by
      rw [List.min?_eq_some_iff]
      refine ⟨mem_filter.mpr ⟨among, decide_eq_true nonneg⟩, fun n member => ?_⟩
      obtain ⟨inside, nonneg'⟩ := mem_filter.mp member
      exact least n inside (of_decide_eq_true nonneg')
    rw [oneMore, smallest]
    by_cases large : nShortest ≥ 15
    · simp only [large, if_true]
      omega
    · simp only [large, if_true, if_false]
      omega

/-! ## What is kept is right -/

/-- The cache has as many numbers as a transaction of the wallet has outputs, and those that are
known are right. -/
structure CacheWell (env : RoundsEnv) (mDenomWtxes : DenomWtxes) : Prop where
  shape : ∀ {hash vout}, mDenomWtxes.lookup hash = some vout →
    ∃ wtx, env.mapWallet.lookup hash = some wtx ∧ vout.length = wtx.vout.length
  right : ∀ {prevout vout n}, mDenomWtxes.lookup prevout.hash = some vout →
    vout[prevout.n.toNat]? = some n → n ≠ -10 → Rounds env prevout n

/-- A query that is answered with the rounds of the output, and leaves the cache right. -/
def Answers (env : RoundsEnv) (mDenomWtxes : DenomWtxes) (prevout : COutPoint)
    (answer : Option (Int × DenomWtxes)) : Prop :=
  ∃ n mDenomWtxes', answer = some (n, mDenomWtxes') ∧ Rounds env prevout n ∧
    CacheWell env mDenomWtxes' ∧
    ∀ hash, hash ∈ mDenomWtxes → hash ∈ mDenomWtxes'

section Cache

variable {env : RoundsEnv} {mDenomWtxes : DenomWtxes} {prevout : COutPoint} {wtx : CTransaction}

theorem cacheWell_empty : CacheWell env ∅ where
  shape found := by cases found
  right found := by cases found

/-- A transaction is added of which nothing is known. -/
theorem CacheWell.insert (well : CacheWell env mDenomWtxes) {hash : UInt256}
    (filed : env.mapWallet.lookup hash = some wtx) :
    CacheWell env (mDenomWtxes.insert hash (wtx.vout.map fun _ => -10)) where
  shape {other vout} found := by
    rcases AssocMap.of_lookup_insert found with ⟨rfl, rfl⟩ | old
    · exact ⟨wtx, filed, length_map _⟩
    · exact well.shape old
  right {prevout vout n} found inside known := by
    rcases AssocMap.of_lookup_insert found with ⟨-, rfl⟩ | old
    · simp only [List.getElem?_map, Option.map_eq_some_iff] at inside
      obtain ⟨out, -, initial⟩ := inside
      exact absurd initial.symm known
    · exact well.right old inside known

/-- What is stored is right if it is the rounds of the output. -/
theorem answers_storeRounds (well : CacheWell env mDenomWtxes) {n : Int}
    (cached : prevout.hash ∈ mDenomWtxes)
    (filed : env.mapWallet.lookup prevout.hash = some wtx)
    (inside : prevout.n.toNat < wtx.vout.length) (rounds : Rounds env prevout n) :
    Answers env mDenomWtxes prevout (storeRounds mDenomWtxes prevout n) := by
  obtain ⟨vout, found⟩ := Option.isSome_iff_exists.mp (AList.lookup_isSome.mpr cached)
  obtain ⟨wtx', filed', length⟩ := well.shape found
  obtain rfl := Option.some.inj (filed.symm.trans filed')
  refine ⟨n, mDenomWtxes.insert prevout.hash (vout.set prevout.n.toNat n), ?_, rounds, ⟨?_, ?_⟩,
    fun hash member => AList.mem_insert _ |>.mpr (Or.inr member)⟩
  · simp [storeRounds, found, length, inside]
  · intro hash vout' found'
    rcases AssocMap.of_lookup_insert found' with ⟨rfl, rfl⟩ | old
    · exact ⟨wtx, filed, by simp [length]⟩
    · exact well.shape old
  intro prevout' vout' n' found' inside' known
  rcases AssocMap.of_lookup_insert found' with ⟨same, rfl⟩ | old
  · rw [List.getElem?_set] at inside'
    by_cases place : prevout.n.toNat = prevout'.n.toNat
    · rw [if_pos place, if_pos (by omega)] at inside'
      obtain rfl := Option.some.inj inside'
      have equal : prevout' = prevout := by
        obtain ⟨hash, m⟩ := prevout
        obtain ⟨hash', m'⟩ := prevout'
        obtain rfl : hash' = hash := same
        obtain rfl := UInt32.toNat_inj.mp place
        rfl
      exact equal ▸ rounds
    · rw [if_neg place] at inside'
      exact well.right (same ▸ found) inside' known
  · exact well.right old inside' known

/-- The loop over inputs whose queries are answered. -/
theorem shortestRounds_some {visit : DenomWtxes → COutPoint → Option (Int × DenomWtxes)}
    {value : COutPoint → Int} {vin : List CTxIn}
    (rounds : ∀ in2 ∈ vin, env.isMineInput in2 ≠ .no → Rounds env in2.prevout (value in2.prevout))
    (visits : ∀ in2 ∈ vin, env.isMineInput in2 ≠ .no → ∀ mDenomWtxes, CacheWell env mDenomWtxes →
      Answers env mDenomWtxes in2.prevout (visit mDenomWtxes in2.prevout))
    (well : CacheWell env mDenomWtxes) {seen : List Int} {nShortest : Int} {fDenomFound : Bool}
    (shortest : Shortest seen nShortest fDenomFound) :
    ∃ nShortest' fDenomFound' mDenomWtxes',
      shortestRounds env visit vin nShortest fDenomFound mDenomWtxes =
        some (nShortest', fDenomFound', mDenomWtxes') ∧
      Shortest (seen ++ ((vin.filter fun in2 => env.isMineInput in2 ≠ .no).map CTxIn.prevout).map
        value) nShortest' fDenomFound' ∧
      CacheWell env mDenomWtxes' ∧ ∀ hash, hash ∈ mDenomWtxes → hash ∈ mDenomWtxes' := by
  induction vin generalizing mDenomWtxes seen nShortest fDenomFound with
  | nil =>
    exact ⟨nShortest, fDenomFound, mDenomWtxes, rfl, by simpa using shortest, well, fun _ => id⟩
  | cons in2 vin ih =>
    obtain ⟨first, rounds⟩ := forall_mem_cons.mp rounds
    obtain ⟨visitFirst, visits⟩ := forall_mem_cons.mp visits
    rw [shortestRounds]
    by_cases mine : env.isMineInput in2 = .no
    · rw [if_pos mine, filter_cons_of_neg (by simp [mine])]
      exact ih rounds visits well shortest
    rw [if_neg mine, filter_cons_of_pos (by simp [mine]), map_cons, map_cons]
    obtain ⟨n, next, visited, answered, well', kept⟩ := visitFirst mine mDenomWtxes well
    obtain rfl := answered.unique (first mine)
    have step := @Shortest.next seen nShortest (value in2.prevout) fDenomFound shortest
    rw [visited]
    dsimp only
    rw [append_cons]
    split at step
    · rename_i smaller
      rw [if_pos smaller]
      obtain ⟨nShortest', fDenomFound', last, loop, shortest', well', kept'⟩ :=
        ih rounds visits well' step
      exact ⟨nShortest', fDenomFound', last, loop, shortest', well', fun hash member =>
        kept' hash (kept hash member)⟩
    rename_i larger
    rw [if_neg larger]
    obtain ⟨nShortest', fDenomFound', last, loop, shortest', well', kept'⟩ :=
      ih rounds visits well' step
    exact ⟨nShortest', fDenomFound', last, loop, shortest', well', fun hash member =>
      kept' hash (kept hash member)⟩

theorem computeRounds_of_given {visit : DenomWtxes → COutPoint → Option (Int × DenomWtxes)}
    {n : Int} (filed : env.mapWallet.lookup prevout.hash = some wtx)
    (given : outputCase env prevout = .inl n) :
    computeRounds env visit wtx mDenomWtxes prevout = some (n, mDenomWtxes) ∨
      prevout.n.toNat < wtx.vout.length ∧
        computeRounds env visit wtx mDenomWtxes prevout = storeRounds mDenomWtxes prevout n := by
  unfold outputCase at given
  simp only [filed] at given
  unfold computeRounds
  split at given
  · exact Or.inl (by rw [Sum.inl.inj given])
  rename_i out found
  refine Or.inr ⟨(List.getElem?_eq_some_iff.mp found).1, ?_⟩
  split at given
  · rename_i collateral
    rw [if_pos collateral, Sum.inl.inj given]
  rename_i collateral
  rw [if_neg collateral]
  split at given
  · rename_i other
    rw [if_pos other, Sum.inl.inj given]
  rename_i denominated
  rw [if_neg denominated]
  split at given
  · rename_i mixed
    rw [if_pos mixed, Sum.inl.inj given]
  · cases given

theorem computeRounds_of_chain {visit : DenomWtxes → COutPoint → Option (Int × DenomWtxes)}
    {inputs : List COutPoint} (filed : env.mapWallet.lookup prevout.hash = some wtx)
    (below : outputCase env prevout = .inr inputs) :
    inputs = (wtx.vin.filter fun in2 => env.isMineInput in2 ≠ .no).map CTxIn.prevout ∧
      prevout.n.toNat < wtx.vout.length ∧
      computeRounds env visit wtx mDenomWtxes prevout =
        match shortestRounds env visit wtx.vin (-10) false mDenomWtxes with
        | none => none
        | some (nShortest, fDenomFound, mDenomWtxes) =>
          storeRounds mDenomWtxes prevout
            (if fDenomFound then if nShortest ≥ 15 then 16 else nShortest + 1 else 0) := by
  unfold outputCase at below
  simp only [filed] at below
  unfold computeRounds
  split at below
  · cases below
  rename_i out found
  split at below
  · cases below
  rename_i collateral
  split at below
  · cases below
  rename_i denominated
  split at below
  · cases below
  rename_i all
  refine ⟨(Sum.inr.inj below).symm, (List.getElem?_eq_some_iff.mp found).1, ?_⟩
  rw [if_neg collateral, if_neg denominated, if_neg all]

/-- An output that the cache says nothing about is answered if its owned inputs are. -/
theorem answers_computeRounds {visit : DenomWtxes → COutPoint → Option (Int × DenomWtxes)}
    (visits : ∀ inputs, outputCase env prevout = .inr inputs → ∀ input ∈ inputs,
      (∃ prev, env.mapWallet.lookup input.hash = some prev ∧
        input.n.toNat < prev.vout.length) → ∀ mDenomWtxes, CacheWell env mDenomWtxes →
        Answers env mDenomWtxes input (visit mDenomWtxes input))
    (filed : env.mapWallet.lookup prevout.hash = some wtx) (well : CacheWell env mDenomWtxes)
    (cached : prevout.hash ∈ mDenomWtxes) :
    Answers env mDenomWtxes prevout (computeRounds env visit wtx mDenomWtxes prevout) := by
  cases below : outputCase env prevout with
  | inl n =>
    rcases @computeRounds_of_given env mDenomWtxes prevout wtx visit n filed below with
      past | ⟨inside, stores⟩
    · exact ⟨n, mDenomWtxes, past, .given below, well, fun _ => id⟩
    · rw [stores]
      exact answers_storeRounds well cached filed inside (.given below)
  | inr inputs =>
    obtain ⟨same, inside, computes⟩ :=
      @computeRounds_of_chain env mDenomWtxes prevout wtx visit inputs filed below
    have answered : ∀ in2 ∈ wtx.vin, env.isMineInput in2 ≠ .no → ∀ mDenomWtxes,
        CacheWell env mDenomWtxes →
        Answers env mDenomWtxes in2.prevout (visit mDenomWtxes in2.prevout) := by
      intro in2 member mine
      refine visits inputs below in2.prevout ?_ (filed_of_isMineInput mine)
      rw [same]
      exact mem_map_of_mem (mem_filter.mpr ⟨member, decide_eq_true mine⟩)
    have known : ∀ input, ∃ n, input ∈ inputs → Rounds env input n := by
      intro input
      by_cases member : input ∈ inputs
      · rw [same] at member
        obtain ⟨in2, among, rfl⟩ := mem_map.mp member
        obtain ⟨listed, mine⟩ := mem_filter.mp among
        obtain ⟨n, -, -, rounds, -⟩ := answered in2 listed (of_decide_eq_true mine) _ well
        exact ⟨n, fun _ => rounds⟩
      · exact ⟨0, fun inside => absurd inside member⟩
    choose value rounds using known
    have owned : ∀ in2 ∈ wtx.vin, env.isMineInput in2 ≠ .no →
        Rounds env in2.prevout (value in2.prevout) := by
      intro in2 member mine
      apply rounds
      rw [same]
      exact mem_map_of_mem (mem_filter.mpr ⟨member, decide_eq_true mine⟩)
    have initial : Shortest [] (-10) false := ⟨by simp, by simp⟩
    obtain ⟨nShortest, fDenomFound, mDenomWtxes', loop, shortest, well', kept⟩ :=
      shortestRounds_some owned answered well initial
    rw [nil_append, ← same] at shortest
    rw [computes, loop]
    dsimp only
    rw [shortest.oneMore_eq]
    obtain ⟨n, last, stores, stored, well'', kept'⟩ :=
      answers_storeRounds well' (kept _ cached) filed inside (.chain value below rounds)
    exact ⟨n, last, stores, stored, well'', fun hash member => kept' hash (kept hash member)⟩

end Cache

/-! ## Every query is answered -/

section Queries

variable {env : RoundsEnv}

/-- Fewer owned inputs below the query than the recursion may still follow. -/
theorem answers_roundsWithin {left : Nat} {prevout : COutPoint} {mDenomWtxes : DenomWtxes}
    (short : chainOf env left prevout = false) (well : CacheWell env mDenomWtxes)
    (within : withinCached mDenomWtxes prevout = true)
    (unfiled : env.mapWallet.lookup prevout.hash = none → left = 16) :
    Answers env mDenomWtxes prevout (roundsWithin env left mDenomWtxes prevout) := by
  induction left generalizing prevout mDenomWtxes with
  | zero => cases short
  | succ left ih =>
    have visits : ∀ inputs, outputCase env prevout = .inr inputs → ∀ input ∈ inputs,
        (∃ prev, env.mapWallet.lookup input.hash = some prev ∧
          input.n.toNat < prev.vout.length) → ∀ mDenomWtxes, CacheWell env mDenomWtxes →
        Answers env mDenomWtxes input (roundsWithin env left mDenomWtxes input) := by
      intro inputs below input member owned mDenomWtxes well
      obtain ⟨prev, filed, inside⟩ := owned
      simp only [chainOf, below, any_eq_false] at short
      apply ih (Bool.eq_false_iff.mpr (short input member)) well
      · unfold withinCached
        split
        · rfl
        rename_i vout found
        obtain ⟨wtx, filed', length⟩ := well.shape found
        obtain rfl := Option.some.inj (filed.symm.trans filed')
        exact decide_eq_true (length ▸ inside)
      · intro missing
        cases filed.symm.trans missing
    rw [roundsWithin]
    cases filed : env.mapWallet.lookup prevout.hash with
    | none =>
      obtain rfl : left = 15 := by
        have := unfiled filed
        omega
      refine ⟨-1, mDenomWtxes, rfl, .given ?_, well, fun _ => id⟩
      simp only [outputCase, filed]
    | some wtx =>
      cases found : mDenomWtxes.lookup prevout.hash with
      | none =>
        obtain ⟨n, last, computes, rounds, well', kept⟩ := answers_computeRounds visits filed
          (well.insert filed) (AList.mem_insert _ |>.mpr (Or.inl rfl))
        exact ⟨n, last, computes, rounds, well', fun hash member =>
          kept hash (AList.mem_insert _ |>.mpr (Or.inr member))⟩
      | some vout =>
        dsimp only
        rw [withinCached, found] at within
        obtain ⟨nRounds, known⟩ : ∃ n, vout[prevout.n.toNat]? = some n :=
          ⟨_, List.getElem?_eq_getElem (of_decide_eq_true within)⟩
        rw [known]
        dsimp only
        split
        · rename_i calculated
          exact ⟨nRounds, mDenomWtxes, rfl, well.right found known calculated, well, fun _ => id⟩
        · have cached : prevout.hash ∈ mDenomWtxes :=
            AList.lookup_isSome.mp (Option.isSome_iff_exists.mpr ⟨vout, found⟩)
          exact answers_computeRounds visits filed well cached

/-- A query with no chain of sixteen owned inputs below it, for an output that is there or whose
transaction is not cached. -/
theorem answers_getRealInputObfuscationRounds {prevout : COutPoint} {mDenomWtxes : DenomWtxes}
    (short : chainOf env 16 prevout = false) (well : CacheWell env mDenomWtxes)
    (within : withinCached mDenomWtxes prevout = true) :
    Answers env mDenomWtxes prevout
      (getRealInputObfuscationRounds env mDenomWtxes prevout 0) :=
  answers_roundsWithin short well within fun _ => rfl

/-- The queries of a sequence, from a cache that is right, are answered with the rounds, as they
would be by an empty cache. -/
theorem askRounds_some {queries : List COutPoint} {mDenomWtxes : DenomWtxes}
    (well : CacheWell env mDenomWtxes) (within : askWithin env mDenomWtxes queries = true) :
    ∃ values, askRounds env mDenomWtxes queries = some values ∧
      List.Forall₂ (fun prevout n => Rounds env prevout n ∧
        ∃ fresh, getRealInputObfuscationRounds env ∅ prevout 0 = some (n, fresh)) queries values := by
  induction queries generalizing mDenomWtxes with
  | nil => exact ⟨[], rfl, .nil⟩
  | cons prevout queries ih =>
    rw [askWithin, Bool.and_eq_true, Bool.and_eq_true, Bool.not_eq_true'] at within
    obtain ⟨⟨short, inside⟩, within⟩ := within
    obtain ⟨n, next, answered, rounds, well', -⟩ :=
      answers_getRealInputObfuscationRounds short well inside
    obtain ⟨n', fresh, answered', rounds', -⟩ :=
      answers_getRealInputObfuscationRounds short cacheWell_empty rfl
    obtain rfl := rounds'.unique rounds
    rw [answered] at within
    obtain ⟨values, rest, all⟩ := ih well' within
    refine ⟨n' :: values, ?_, .cons ⟨rounds, fresh, answered'⟩ all⟩
    rw [askRounds, answered]
    simp only [rest, Option.map_some]

/-- A sequence of queries is answered with the rounds of every output if no query has a chain of
sixteen owned inputs below it or goes past the outputs of a cached transaction. -/
theorem askRounds_rounds (env : RoundsEnv) (queries : List COutPoint)
    (within : askWithin env ∅ queries = true) :
    ∃ values, askRounds env ∅ queries = some values ∧
      List.Forall₂ (fun prevout n => Rounds env prevout n ∧
        ∃ fresh, getRealInputObfuscationRounds env ∅ prevout 0 = some (n, fresh)) queries values :=
  askRounds_some cacheWell_empty within

end Queries

/-- A wallet of so many denominated transactions, each of which spends the one before. -/
def denominatedChain (length : Nat) : RoundsEnv where
  mapWallet := (List.range length).foldl (fun m k =>
    AList.insert (BitVec.ofNat 256 (k + 1))
      ⟨BitVec.ofNat 256 (k + 1), 1, [{ prevout := ⟨BitVec.ofNat 256 k, 0⟩ }],
        [⟨COIN + 1000, []⟩], 0, []⟩ m) ∅
  isMine _ := .spendable

/-- The last of seventeen transactions, asked for first, leaves the second with sixteen rounds instead
of one; an output that is not there is read from the cache when it is asked for again. -/
theorem rounds_depend_on_queries :
    askRounds (denominatedChain 17) ∅ [⟨17, 0⟩, ⟨2, 0⟩] = some [16, 16] ∧
    askRounds (denominatedChain 17) ∅ [⟨2, 0⟩] = some [1] ∧
    askRounds (denominatedChain 17) ∅ [⟨2, 7⟩] = some [-4] ∧
    askRounds (denominatedChain 17) ∅ [⟨2, 7⟩, ⟨2, 7⟩] = none := by
  decide

/-- The third, the second and no transaction of a chain. -/
theorem askRounds_rounds_three : ∃ values,
    askRounds (denominatedChain 3) ∅ [⟨3, 0⟩, ⟨2, 0⟩, ⟨7, 0⟩] = some values ∧
      List.Forall₂ (fun prevout n => Rounds (denominatedChain 3) prevout n ∧
        ∃ fresh, getRealInputObfuscationRounds (denominatedChain 3) ∅ prevout 0 = some (n, fresh))
        [⟨3, 0⟩, ⟨2, 0⟩, ⟨7, 0⟩] values :=
  askRounds_rounds _ _ (by decide)

end Esbcoin
