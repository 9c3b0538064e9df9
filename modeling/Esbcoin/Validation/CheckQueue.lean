import Mathlib.Logic.Relation
import Esbcoin.Lib.Threads

/-!
# The queue of script checks

`CCheckQueue` (`src/checkqueue.h`) with one master and any number of workers. A step is a section
under the mutex or the execution of one check, so `QueueStep` gives every interleaving. The queue is
a list with its back first. Threads woken by a condition variable, by a call of `notify` or without
one, take the mutex later. Two lists that no code reads follow the checks of a round: those added,
and those taken, with the thread that took them.
-/

namespace Esbcoin

open Threads List

/-- Where a thread is. `locked` is the place under the mutex where the loop starts logically
(`checkqueue.h:87`); no thread is there between two steps. -/
inductive QueueThread (T : Type) where
  /-- Not in `Loop`. -/
  | outside
  /-- In front of the mutex, or with checks to execute first. -/
  | running (vChecks : List T) (nNow : Nat) (fOk : Bool)
  | locked
  /-- In `cond.wait`. -/
  | waiting
  /-- Behind `cond.wait`, in front of the mutex. -/
  | woken

namespace QueueThread

variable {T : Type}

/-- The checks that a thread has still to execute. -/
def unexecuted : QueueThread T → List T
  | running vChecks _ _ => vChecks
  | _ => []

/-- How many of the unfinished checks are those of a thread. -/
def claimed : QueueThread T → Nat
  | running _ nNow _ => nNow
  | _ => 0

/-- Does a thread count as idle? -/
def idle : QueueThread T → Nat
  | waiting | woken => 1
  | _ => 0

/-- Can a thread go on by itself? -/
def ready : QueueThread T → Prop
  | running .. | woken => True
  | _ => False

/-- The steps that a thread has still to make for its batch. -/
def left : QueueThread T → Nat
  | running vChecks nNow _ => if nNow = 0 then 0 else vChecks.length + 1
  | _ => 0

/-- Does a thread count? It does from its first section on. -/
def counted : QueueThread T → Nat
  | running _ nNow _ => if nNow = 0 then 0 else 1
  | locked | waiting | woken => 1
  | outside => 0

end QueueThread

/-- `CCheckQueue` (`checkqueue.h:31-66`) and its threads; the master is `none`. -/
structure CCheckQueue (W T : Type) where
  queue : List T
  nIdle : Nat
  nTotal : Nat
  fAllOk : Bool
  nTodo : Nat
  fQuit : Bool
  nBatchSize : Nat
  threads : Option W → QueueThread T
  /-- The checks of this round. -/
  added : List T
  /-- The checks of this round that have been taken, each with its thread. -/
  taken : List (Option W × T)

namespace CCheckQueue

variable {W T : Type} [DecidableEq W]

/-- `CCheckQueue(nBatchSizeIn)` (`checkqueue.h:130`). -/
def init (nBatchSizeIn : Nat) : CCheckQueue W T where
  queue := []
  nIdle := 0
  nTotal := 0
  fAllOk := true
  nTodo := 0
  fQuit := false
  nBatchSize := nBatchSizeIn
  threads _ := .outside
  added := []
  taken := []

/-- A thread goes to a place. -/
def goTo (s : CCheckQueue W T) (t : Option W) (place : QueueThread T) : CCheckQueue W T :=
  { s with threads := Function.update s.threads t place }

/-- `condMaster.notify_one`. -/
def notifyMaster (s : CCheckQueue W T) : CCheckQueue W T :=
  match s.threads none with
  | .waiting => s.goTo none .woken
  | _ => s

/-- The clean-up of the previous loop run (`checkqueue.h:77-86`), or the way out of `wait` (`:98`);
`none` for a thread that is not in front of the mutex. -/
def cleanUp (s : CCheckQueue W T) (t : Option W) : Option (CCheckQueue W T) :=
  match s.threads t with
  | .running [] nNow fOk =>
    if nNow = 0 then some ({ s with nTotal := s.nTotal + 1 }.goTo t .locked)
    else
      let s := { s with fAllOk := s.fAllOk && fOk, nTodo := s.nTodo - nNow }.goTo t .locked
      some (if s.nTodo = 0 ∧ t ≠ none then s.notifyMaster else s)
  | .woken => some ({ s with nIdle := s.nIdle - 1 }.goTo t .locked)
  | _ => none

/-- `nNow` (`checkqueue.h:105`). -/
def nNow (s : CCheckQueue W T) : Nat :=
  max 1 (min s.nBatchSize (s.queue.length / (s.nTotal + s.nIdle + 1)))

/-- The rest of the section (`checkqueue.h:87-115`), with the result of `Loop` where it returns.
There the master's round is over. -/
def loopTop (s : CCheckQueue W T) (t : Option W) : CCheckQueue W T × Option Bool :=
  if s.queue.isEmpty then
    if (t.isNone || s.fQuit) && s.nTodo == 0 then
      let out := { s with nTotal := s.nTotal - 1 }.goTo t .outside
      (if t.isNone then { out with fAllOk := true, added := [], taken := [] } else out,
        some s.fAllOk)
    else ({ s with nIdle := s.nIdle + 1 }.goTo t .waiting, none)
  else
    let vChecks := s.queue.take s.nNow
    ({ s with
        queue := s.queue.drop s.nNow
        taken := s.taken ++ vChecks.map fun check => (t, check) }.goTo t
      (.running vChecks s.nNow s.fAllOk), none)

/-- `CCheckQueue::IsIdle` (`checkqueue.h:163-167`). -/
def isIdle (s : CCheckQueue W T) : Bool := s.nTotal == s.nIdle && s.nTodo == 0 && s.fAllOk

end CCheckQueue

section Steps

variable {W T : Type} [DecidableEq W]

/-- What `Add` does to the threads for so many checks (`checkqueue.h:153-156`). -/
inductive NotifiesWorkers (threads : Option W → QueueThread T) :
    Nat → (Option W → QueueThread T) → Prop where
  | nobody : NotifiesWorkers threads 0 threads
  | one (w : W) (waits : threads (some w) = .waiting) :
      NotifiesWorkers threads 1 (Function.update threads (some w) .woken)
  | noneWaits (busy : ∀ w, threads (some w) ≠ .waiting) : NotifiesWorkers threads 1 threads
  | all {n : Nat} {threads' : Option W → QueueThread T} (many : 1 < n)
      (master : threads' none = threads none)
      (woken : ∀ w, threads (some w) = .waiting → threads' (some w) = .woken)
      (others : ∀ w, threads (some w) ≠ .waiting → threads' (some w) = threads (some w)) :
      NotifiesWorkers threads n threads'

/-- One step of the queue, where `eval` says what a check returns. -/
inductive QueueStep (eval : T → Bool) (s : CCheckQueue W T) : CCheckQueue W T → Prop where
  /-- `Thread` (`checkqueue.h:133-136`). -/
  | start (w : W) (place : s.threads (some w) = .outside) :
      QueueStep eval s (s.goTo (some w) (.running [] 0 true))
  /-- `Wait` (`checkqueue.h:139-142`). -/
  | wait (place : s.threads none = .outside) : QueueStep eval s (s.goTo none (.running [] 0 true))
  /-- `Add` (`checkqueue.h:145-157`). -/
  | add (vChecks : List T) (place : s.threads none = .outside) (threads : Option W → QueueThread T)
      (notified : NotifiesWorkers s.threads vChecks.length threads) :
      QueueStep eval s
        { s with
          queue := vChecks.reverse ++ s.queue
          nTodo := s.nTodo + vChecks.length
          threads := threads
          added := s.added ++ vChecks }
  /-- One check of a batch (`checkqueue.h:117-119`). -/
  | execute (t : Option W) (check : T) (vChecks : List T) (nNow : Nat) (fOk : Bool)
      (place : s.threads t = .running (check :: vChecks) nNow fOk) :
      QueueStep eval s (s.goTo t (.running vChecks nNow (fOk && eval check)))
  /-- The section under the mutex. -/
  | critical (t : Option W) (clean : CCheckQueue W T) (cleaned : s.cleanUp t = some clean) :
      QueueStep eval s (clean.loopTop t).1
  /-- `wait` may end without a call of `notify`. -/
  | spurious (t : Option W) (place : s.threads t = .waiting) : QueueStep eval s (s.goTo t .woken)

end Steps

section Woken

variable {W T : Type}

/-- Some threads that waited are woken. -/
def Woken (threads threads' : Option W → QueueThread T) : Prop :=
  ∀ t, threads' t = threads t ∨ (threads t = .waiting ∧ threads' t = .woken)

theorem Woken.update [DecidableEq W] (threads : Option W → QueueThread T) {t : Option W}
    (waits : threads t = .waiting) : Woken threads (Function.update threads t .woken) := by
  intro t'
  by_cases here : t' = t
  · subst here
    exact Or.inr ⟨waits, Function.update_self ..⟩
  · exact Or.inl (Function.update_of_ne here ..)

theorem NotifiesWorkers.woken [DecidableEq W] {threads threads' : Option W → QueueThread T} {n : Nat}
    (notified : NotifiesWorkers threads n threads') : Woken threads threads' := by
  cases notified with
  | nobody => exact fun t => Or.inl rfl
  | one w waits => exact Woken.update threads waits
  | noneWaits busy => exact fun t => Or.inl rfl
  | all many master woken others =>
    rintro (_ | w)
    · exact Or.inl master
    · by_cases waits : threads (some w) = .waiting
      · exact Or.inr ⟨waits, woken w waits⟩
      · exact Or.inl (others w waits)

namespace Woken

variable {threads threads' : Option W → QueueThread T}

theorem measure (woken : Woken threads threads') {α : Type} (g : QueueThread T → α)
    (same : g .waiting = g .woken) (t : Option W) : g (threads' t) = g (threads t) := by
  rcases woken t with equal | ⟨waits, woke⟩
  · rw [equal]
  · rw [waits, woke, same]

theorem running (woken : Woken threads threads') {t : Option W} {vChecks : List T} {nNow : Nat}
    {fOk : Bool} : threads' t = .running vChecks nNow fOk ↔ threads t = .running vChecks nNow fOk := by
  rcases woken t with equal | ⟨waits, woke⟩
  · rw [equal]
  · rw [waits, woke]
    exact iff_of_false nofun nofun

theorem of_waiting (woken : Woken threads threads') {t : Option W}
    (waits : threads' t = .waiting) : threads t = .waiting := by
  rcases woken t with equal | ⟨-, woke⟩
  · exact equal.symm.trans waits
  · rw [woke] at waits
    cases waits

end Woken

end Woken

/-! ## The two halves of a section -/

section Halves

variable {W T : Type} [DecidableEq W] {s s' clean : CCheckQueue W T} {t t' : Option W}

/-- The thread that moves is at its new place, every other where it was. -/
private theorem at_move {threads : Option W → QueueThread T} {place : QueueThread T}
    {P : QueueThread T → Prop} (here : t' = t → P place) (there : t' ≠ t → P (threads t')) :
    P (Function.update threads t place t') := by
  by_cases same : t' = t
  · rw [same, Function.update_self]
    exact here same
  · rw [Function.update_of_ne same]
    exact there same

/-- What the first half leaves of the state: the thread is at the top of the loop, and the master
may be woken. -/
structure CleanedUp (s : CCheckQueue W T) (t : Option W) (clean : CCheckQueue W T) : Prop where
  executed : (s.threads t).unexecuted = []
  queue : clean.queue = s.queue
  added : clean.added = s.added
  taken : clean.taken = s.taken
  threads : Woken (Function.update s.threads t .locked) clean.threads

theorem CCheckQueue.cleanedUp (cleaned : s.cleanUp t = some clean) : CleanedUp s t clean := by
  have whole : ∀ {s' : CCheckQueue W T}, (s.threads t).unexecuted = [] → s'.queue = s.queue →
      s'.added = s.added → s'.taken = s.taken → s'.threads = s.threads →
      CleanedUp s t (s'.goTo t .locked) := fun {s'} executed queue added taken threads =>
    ⟨executed, queue, added, taken, fun t' => Or.inl (by
      show Function.update s'.threads t .locked t' = _
      rw [threads])⟩
  unfold cleanUp at cleaned
  split at cleaned
  · rename_i nNow fOk place
    have executed : (s.threads t).unexecuted = [] := by
      rw [place]
      rfl
    split at cleaned
    · obtain rfl := Option.some.inj cleaned
      exact whole executed rfl rfl rfl rfl
    simp only [Option.some.injEq] at cleaned
    split at cleaned
    · subst cleaned
      unfold notifyMaster
      split
      · rename_i waits
        exact ⟨executed, rfl, rfl, rfl, Woken.update _ waits⟩
      · exact whole executed rfl rfl rfl rfl
    · rw [← cleaned]
      exact whole executed rfl rfl rfl rfl
  · rename_i place
    obtain rfl := Option.some.inj cleaned
    refine whole ?_ rfl rfl rfl rfl
    rw [place]
    rfl
  · cases cleaned

namespace CleanedUp

variable (half : CleanedUp s t clean)
include half

theorem locked : clean.threads t = .locked := by
  rcases half.threads t with same | ⟨waits, -⟩
  · rw [same, Function.update_self]
  · rw [Function.update_self] at waits
    cases waits

theorem unexecuted (t' : Option W) : (clean.threads t').unexecuted = (s.threads t').unexecuted := by
  rw [half.threads.measure QueueThread.unexecuted rfl]
  refine at_move (P := fun l => l.unexecuted = (s.threads t').unexecuted) ?_ fun _ => rfl
  rintro rfl
  exact half.executed.symm

theorem others (other : t' ≠ t) :
    clean.threads t' = s.threads t' ∨ s.threads t' = .waiting ∧ clean.threads t' = .woken := by
  have moved := half.threads t'
  rwa [Function.update_of_ne other] at moved

end CleanedUp

/-- The second half moves the thread on. One that stays in `Loop` ends no round, and without checks
it waits. -/
theorem CCheckQueue.loopTop_moves (s : CCheckQueue W T) (t : Option W) : ∃ place, place ≠ .locked ∧
    (s.loopTop t).1.threads = Function.update s.threads t place ∧
    ((s.loopTop t).2 = none → (s.loopTop t).1.added = s.added ∧ place ≠ .outside ∧
      (s.queue = [] → place = .waiting)) := by
  unfold loopTop
  split
  · split
    · simp only
      split
      · exact ⟨.outside, nofun, rfl, nofun⟩
      · exact ⟨.outside, nofun, rfl, nofun⟩
    · exact ⟨.waiting, nofun, rfl, fun _ => ⟨rfl, nofun, fun _ => rfl⟩⟩
  · rename_i more
    exact ⟨.running _ _ _, nofun, rfl, fun _ =>
      ⟨rfl, nofun, fun empty => absurd (List.isEmpty_iff.mpr empty) more⟩⟩

/-- No thread is under the mutex between two steps. -/
def Unlocked (s : CCheckQueue W T) : Prop := ∀ t, s.threads t ≠ .locked

/-- A section ends with the mutex. -/
theorem CleanedUp.unlocked (half : CleanedUp s t clean) (unlocked : Unlocked s) :
    Unlocked (clean.loopTop t).1 := by
  obtain ⟨place, free, threads, -⟩ := clean.loopTop_moves t
  intro t'
  rw [threads]
  refine at_move (P := fun l => l ≠ .locked) (fun _ => free) fun other => ?_
  rcases half.others other with same | ⟨-, woke⟩
  · rw [same]
    exact unlocked t'
  · rw [woke]
    exact nofun

omit [DecidableEq W] in
theorem CCheckQueue.nNow_le (more : s.queue ≠ []) : s.nNow ≤ s.queue.length := by
  refine Nat.max_le.mpr ⟨length_pos_iff.mpr more, ?_⟩
  exact (Nat.min_le_right ..).trans (Nat.div_le_self ..)

end Halves

section Sound

variable {W T : Type} [Fintype W]

/-! ## What every step keeps -/

/-- The numbers of the queue are those of the threads; the checks of the round are in the queue or
taken, each once; a failure is that of a check, and no failed check is forgotten. -/
structure QueueSound (eval : T → Bool) (s : CCheckQueue W T) : Prop where
  fQuit : s.fQuit = false
  nTodo : s.nTodo = s.queue.length + Threads.total QueueThread.claimed s.threads
  nIdle : s.nIdle = Threads.total QueueThread.idle s.threads
  nTotal : s.nTotal = Threads.total QueueThread.counted s.threads
  batch : ∀ t, (s.threads t).unexecuted.length ≤ (s.threads t).claimed
  first : ∀ t vChecks fOk, s.threads t = .running vChecks 0 fOk → fOk = true
  once : s.added.Perm (s.queue ++ s.taken.map Prod.snd)
  own : ∀ t, ∀ check ∈ (s.threads t).unexecuted, (t, check) ∈ s.taken
  claims : Threads.total QueueThread.claimed s.threads ≤ s.taken.length
  failed : s.fAllOk = false → ∃ check ∈ s.added, eval check = false
  failedBatch : ∀ t vChecks nNow, s.threads t = .running vChecks nNow false →
    ∃ check ∈ s.added, eval check = false
  found : s.fAllOk = true →
    (∀ t vChecks nNow fOk, s.threads t = .running vChecks nNow fOk → fOk = true) →
    ∀ check ∈ s.taken.map Prod.snd, eval check = false → ∃ t, check ∈ (s.threads t).unexecuted
  master : s.threads none = .waiting → s.queue = [] ∧ 0 < s.nTodo

variable {eval : T → Bool} {s clean : CCheckQueue W T}

/-- Waking threads changes none of the numbers. -/
theorem QueueSound.wake (sound : QueueSound eval s) {threads : Option W → QueueThread T}
    (woken : Woken s.threads threads) : QueueSound eval { s with threads := threads } where
  fQuit := sound.fQuit
  nTodo := by
    rw [total_congr (woken.measure QueueThread.claimed rfl)]
    exact sound.nTodo
  nIdle := by
    rw [total_congr (woken.measure QueueThread.idle rfl)]
    exact sound.nIdle
  nTotal := by
    rw [total_congr (woken.measure QueueThread.counted rfl)]
    exact sound.nTotal
  batch t := by
    rw [woken.measure QueueThread.unexecuted rfl, woken.measure QueueThread.claimed rfl]
    exact sound.batch t
  first t vChecks fOk here := sound.first t vChecks fOk (woken.running.mp here)
  once := sound.once
  own t check member := by
    have member : check ∈ (threads t).unexecuted := member
    rw [woken.measure QueueThread.unexecuted rfl] at member
    exact sound.own t check member
  claims := by
    rw [total_congr (woken.measure QueueThread.claimed rfl)]
    exact sound.claims
  failed := sound.failed
  failedBatch t vChecks nNow here := sound.failedBatch t vChecks nNow (woken.running.mp here)
  found ok all check member false_ := by
    obtain ⟨t, there⟩ := sound.found ok
      (fun t vChecks nNow fOk here => all t vChecks nNow fOk (woken.running.mpr here)) check member
      false_
    refine ⟨t, ?_⟩
    rw [woken.measure QueueThread.unexecuted rfl]
    exact there
  master waits := sound.master (woken.of_waiting waits)

variable [DecidableEq W]

/-- A thread moves to another place: what the queue must say behind the move of what it said in
front of it. -/
structure QueueMove (eval : T → Bool) (s : CCheckQueue W T) (t : Option W) (place : QueueThread T)
    (s' : CCheckQueue W T) : Prop where
  threads : s'.threads = Function.update s.threads t place
  fQuit : s'.fQuit = s.fQuit
  nTodo : s'.nTodo + (s.queue.length + (s.threads t).claimed) =
    s.nTodo + (s'.queue.length + place.claimed)
  nIdle : s'.nIdle + (s.threads t).idle = s.nIdle + place.idle
  nTotal : s'.nTotal + (s.threads t).counted = s.nTotal + place.counted
  batch : place.unexecuted.length ≤ place.claimed
  first : ∀ vChecks fOk, place = .running vChecks 0 fOk → fOk = true
  added : s'.added = s.added
  once : s'.added.Perm (s'.queue ++ s'.taken.map Prod.snd)
  own : ∀ check ∈ place.unexecuted, (t, check) ∈ s'.taken
  taken : ∀ item ∈ s.taken, item ∈ s'.taken
  new : ∀ item ∈ s'.taken, item ∈ s.taken ∨ item.2 ∈ place.unexecuted
  claims : s.taken.length + place.claimed ≤ s'.taken.length + (s.threads t).claimed
  failed : s'.fAllOk = false → ∃ check ∈ s.added, eval check = false
  failedBatch : ∀ vChecks nNow, place = .running vChecks nNow false →
    ∃ check ∈ s.added, eval check = false
  found : s'.fAllOk = true → (∀ vChecks nNow fOk, place = .running vChecks nNow fOk → fOk = true) →
    s.fAllOk = true ∧
      (∀ vChecks nNow fOk, s.threads t = .running vChecks nNow fOk → fOk = true) ∧
      ∀ check ∈ (s.threads t).unexecuted, eval check = false → check ∈ place.unexecuted
  master : s'.threads none = .waiting → s'.queue = [] ∧ 0 < s'.nTodo

variable {s' : CCheckQueue W T} {fOk : Bool}

theorem QueueSound.moves (sound : QueueSound eval s) {t : Option W} (place : QueueThread T)
    (move : QueueMove eval s t place s') : QueueSound eval s' := by
  have claimed := total_update QueueThread.claimed s.threads t place
  have idle := total_update QueueThread.idle s.threads t place
  have counted := total_update QueueThread.counted s.threads t place
  have threads := move.threads
  rw [← threads] at claimed idle counted
  refine ⟨move.fQuit.trans sound.fQuit, ?_, ?_, ?_, ?_, ?_, move.once, ?_, ?_, ?_, ?_, ?_,
    move.master⟩
  · have before := sound.nTodo
    have change := move.nTodo
    omega
  · have before := sound.nIdle
    have change := move.nIdle
    omega
  · have before := sound.nTotal
    have change := move.nTotal
    omega
  · intro t'
    rw [threads]
    exact at_move (P := fun l => l.unexecuted.length ≤ l.claimed) (fun _ => move.batch)
      fun _ => sound.batch t'
  · intro t' vChecks fOk
    rw [threads]
    exact at_move (P := fun l => l = .running vChecks 0 fOk → fOk = true)
      (fun _ => move.first vChecks fOk) fun _ => sound.first t' vChecks fOk
  · intro t'
    rw [threads]
    refine at_move (P := fun l => ∀ check ∈ l.unexecuted, (t', check) ∈ s'.taken) ?_ ?_
    · rintro rfl
      exact move.own
    · exact fun _ check member => move.taken _ (sound.own t' check member)
  · have before := sound.claims
    have change := move.claims
    omega
  · rw [move.added]
    exact move.failed
  · intro t' vChecks nNow
    rw [threads, move.added]
    exact at_move
      (P := fun l => l = .running vChecks nNow false → ∃ check ∈ s.added, eval check = false)
      (fun _ => move.failedBatch vChecks nNow) fun _ => sound.failedBatch t' vChecks nNow
  · intro ok all check member false_
    have here : ∀ vChecks nNow fOk, place = .running vChecks nNow fOk → fOk = true := by
      intro vChecks nNow fOk equal
      apply all t vChecks nNow fOk
      rw [threads, Function.update_self]
      exact equal
    obtain ⟨okBefore, hereBefore, kept⟩ := move.found ok here
    have allBefore : ∀ t' vChecks nNow fOk,
        s.threads t' = .running vChecks nNow fOk → fOk = true := by
      intro t' vChecks nNow fOk equal
      by_cases same : t' = t
      · rw [same] at equal
        exact hereBefore vChecks nNow fOk equal
      · apply all t' vChecks nNow fOk
        rw [threads, Function.update_of_ne same]
        exact equal
    obtain ⟨item, there, rfl⟩ := mem_map.mp member
    rcases move.new item there with old | new
    · obtain ⟨t', waits⟩ := sound.found okBefore allBefore item.2 (mem_map_of_mem old) false_
      refine ⟨t', ?_⟩
      rw [threads]
      refine at_move (P := fun l => item.2 ∈ l.unexecuted) ?_ fun _ => waits
      rintro rfl
      exact kept item.2 waits false_
    · refine ⟨t, ?_⟩
      rw [threads, Function.update_self]
      exact new

/-! ## The steps -/

omit [Fintype W] in
/-- A master that waits behind the move of a thread has waited in front of it. -/
private theorem waits_before {t : Option W} (place : QueueThread T)
    (threads : s'.threads = Function.update s.threads t place) (here : place ≠ .waiting)
    (waits : s'.threads none = .waiting) : t ≠ none ∧ s.threads none = .waiting := by
  rw [threads] at waits
  by_cases same : none = t
  · subst same
    exact absurd waits here
  · rw [Function.update_of_ne same] at waits
    exact ⟨Ne.symm same, waits⟩

section

variable (sound : QueueSound eval s) {t : Option W}
include sound

/-- A thread without a batch goes to a place without one. -/
private theorem QueueSound.goesTo {old place : QueueThread T} (here : s.threads t = old)
    (threads : s'.threads = Function.update s.threads t place) (fQuit : s'.fQuit = s.fQuit)
    (same : s'.queue = s.queue ∧ s'.nTodo = s.nTodo ∧ s'.fAllOk = s.fAllOk ∧ s'.added = s.added ∧
      s'.taken = s.taken)
    (free : old.claimed = 0) (nIdle : s'.nIdle + old.idle = s.nIdle + place.idle)
    (nTotal : s'.nTotal + old.counted = s.nTotal + place.counted)
    (nothing : place.unexecuted = [] ∧ place.claimed = 0)
    (ok : ∀ vChecks nNow fOk, place = .running vChecks nNow fOk → fOk = true)
    (master : t = none → place = .waiting → s.queue = [] ∧ 0 < s.nTodo) : QueueSound eval s' := by
  obtain ⟨queue, nTodo, fAllOk, added, taken⟩ := same
  subst here
  have executed := sound.batch t
  rw [free, Nat.le_zero, length_eq_zero_iff] at executed
  refine sound.moves place ⟨threads, fQuit, ?_, nIdle, nTotal, ?_, fun vChecks => ok vChecks 0,
    added, ?_, ?_, ?_, ?_, ?_, ?_, ?_, ?_, ?_⟩
  · rw [nTodo, queue, free, nothing.2]
  · rw [nothing.1]
    exact Nat.zero_le _
  · rw [added, queue, taken]
    exact sound.once
  · rw [nothing.1]
    exact nofun
  · rw [taken]
    exact fun _ => id
  · rw [taken]
    exact fun _ => Or.inl
  · rw [taken, free, nothing.2]
  · rw [fAllOk]
    exact sound.failed
  · exact fun vChecks nNow here => absurd (ok vChecks nNow false here) nofun
  · rw [fAllOk, executed]
    refine fun allOk _ => ⟨allOk, fun vChecks nNow fOk here => ?_, nofun⟩
    rw [here] at free
    obtain rfl : nNow = 0 := free
    exact sound.first t vChecks fOk here
  · rw [threads, queue, nTodo]
    refine at_move (P := fun l => l = .waiting → s.queue = [] ∧ 0 < s.nTodo) (fun here => ?_)
      fun _ => sound.master
    exact master here.symm

theorem QueueSound.enter (place : s.threads t = .outside) :
    QueueSound eval (s.goTo t (.running [] 0 true)) := by
  refine sound.goesTo place rfl rfl ⟨rfl, rfl, rfl, rfl, rfl⟩ rfl rfl rfl ⟨rfl, rfl⟩ ?_ nofun
  intro vChecks nNow fOk equal
  cases equal
  rfl

theorem QueueSound.execute {check : T} {vChecks : List T} {nNow : Nat}
    (place : s.threads t = .running (check :: vChecks) nNow fOk) :
    QueueSound eval (s.goTo t (.running vChecks nNow (fOk && eval check))) := by
  have batch := sound.batch t
  have own := sound.own t
  rw [place] at batch own
  have batch : vChecks.length + 1 ≤ nNow := batch
  have added : check ∈ s.added := by
    rw [sound.once.mem_iff]
    exact mem_append_right _ (mem_map_of_mem (own check mem_cons_self))
  refine sound.moves (t := t) (.running vChecks nNow (fOk && eval check)) ⟨rfl, rfl, ?_, ?_, ?_, ?_,
    ?_, rfl, sound.once, ?_, fun _ => id, fun _ => Or.inl, ?_, sound.failed, ?_, ?_, ?_⟩
  · rw [place]
    rfl
  · rw [place]
    rfl
  · rw [place]
    rfl
  · show vChecks.length ≤ nNow
    omega
  · intro vChecks' fOk' equal
    have zero : nNow = 0 := (QueueThread.running.inj equal).2.1
    omega
  · exact fun later member => own later (mem_cons_of_mem check member)
  · rw [place]
    exact Nat.le_refl _
  · intro vChecks' nNow' equal
    have failed : (fOk && eval check) = false := (QueueThread.running.inj equal).2.2
    rcases Bool.and_eq_false_iff.mp failed with before | now
    · rw [before] at place
      exact sound.failedBatch t _ _ place
    · exact ⟨check, added, now⟩
  · intro ok here
    obtain ⟨before, now⟩ := Bool.and_eq_true_iff.mp (here _ _ _ rfl)
    rw [place]
    refine ⟨ok, ?_, ?_⟩
    · intro vChecks' nNow' fOk' equal
      exact (QueueThread.running.inj equal).2.2.symm.trans before
    intro later member false_
    rcases mem_cons.mp member with rfl | rest
    · rw [now] at false_
      cases false_
    · exact rest
  · intro waits
    exact sound.master (waits_before (.running vChecks nNow (fOk && eval check)) rfl nofun waits).2

/-- The clean-up of a batch; the master does not wait any more when it is the last one. -/
theorem QueueSound.finishBatch {nNow : Nat} (place : s.threads t = .running [] nNow fOk)
    (more : nNow ≠ 0) (awake : nNow = s.nTodo → t ≠ none → s.threads none ≠ .waiting) :
    QueueSound eval
      ({ s with fAllOk := s.fAllOk && fOk, nTodo := s.nTodo - nNow }.goTo t .locked) := by
  have claimed : nNow ≤ s.nTodo := by
    have own := Threads.le_total QueueThread.claimed s.threads t
    rw [place] at own
    have own : nNow ≤ Threads.total QueueThread.claimed s.threads := own
    have todo := sound.nTodo
    omega
  refine sound.moves (t := t) .locked ⟨rfl, rfl, ?_, ?_, ?_, Nat.le_refl 0, nofun, rfl, sound.once,
    nofun, fun _ => id, fun _ => Or.inl, ?_, ?_, nofun, ?_, ?_⟩
  · rw [place]
    show s.nTodo - nNow + (s.queue.length + nNow) = s.nTodo + (s.queue.length + 0)
    omega
  · rw [place]
    rfl
  · rw [place]
    show s.nTotal + (if nNow = 0 then 0 else 1) = s.nTotal + 1
    rw [if_neg more]
  · exact Nat.le_add_right _ _
  · intro failed
    rcases Bool.and_eq_false_iff.mp failed with before | now
    · exact sound.failed before
    · rw [now] at place
      exact sound.failedBatch t _ _ place
  · intro ok _
    obtain ⟨before, now⟩ := Bool.and_eq_true_iff.mp ok
    rw [place]
    refine ⟨before, ?_, nofun⟩
    intro vChecks nNow' fOk' equal
    exact (QueueThread.running.inj equal).2.2.symm.trans now
  · intro waits
    obtain ⟨worker, before⟩ := waits_before .locked rfl nofun waits
    refine ⟨(sound.master before).1, ?_⟩
    show 0 < s.nTodo - nNow
    have unfinished : nNow ≠ s.nTodo := fun equal => awake equal worker before
    omega

theorem QueueSound.comeBack (place : s.threads t = .woken) :
    QueueSound eval ({ s with nIdle := s.nIdle - 1 }.goTo t .locked) := by
  have counted : 1 ≤ s.nIdle := by
    have own := Threads.le_total QueueThread.idle s.threads t
    rw [place] at own
    rw [sound.nIdle]
    exact own
  refine sound.goesTo place rfl rfl ⟨rfl, rfl, rfl, rfl, rfl⟩ rfl ?_ rfl ⟨rfl, rfl⟩ nofun nofun
  show s.nIdle - 1 + 1 = s.nIdle + 0
  omega

theorem QueueSound.register (place : s.threads t = .running [] 0 fOk) :
    QueueSound eval ({ s with nTotal := s.nTotal + 1 }.goTo t .locked) :=
  sound.goesTo place rfl rfl ⟨rfl, rfl, rfl, rfl, rfl⟩ rfl rfl rfl ⟨rfl, rfl⟩ nofun nofun

/-- A thread at the top of the loop waits, the master only for checks of others. -/
theorem QueueSound.goIdle (locked : s.threads t = .locked) (empty : s.queue = [])
    (more : t = none → 0 < s.nTodo) :
    QueueSound eval ({ s with nIdle := s.nIdle + 1 }.goTo t .waiting) :=
  sound.goesTo locked rfl rfl ⟨rfl, rfl, rfl, rfl, rfl⟩ rfl rfl rfl ⟨rfl, rfl⟩ nofun
    fun master _ => ⟨empty, more master⟩

end

/-- The first half of a section. -/
theorem QueueSound.cleanUp (sound : QueueSound eval s) {t : Option W}
    (cleaned : s.cleanUp t = some clean) : QueueSound eval clean := by
  unfold CCheckQueue.cleanUp at cleaned
  split at cleaned
  · rename_i nNow fOk place
    split at cleaned
    · rename_i zero
      subst zero
      obtain rfl := Option.some.inj cleaned
      exact sound.register place
    rename_i more
    simp only [Option.some.injEq] at cleaned
    split at cleaned
    · rename_i last
      subst cleaned
      unfold CCheckQueue.notifyMaster
      split
      · -- the master is woken in front of the clean-up instead: the places are the same
        rename_i waits
        have waits : Function.update s.threads t .locked none = .waiting := waits
        rw [Function.update_of_ne (Ne.symm last.2)] at waits
        have awake := sound.wake (Woken.update s.threads waits)
        have place' : Function.update s.threads none .woken t = .running [] nNow fOk := by
          rw [Function.update_of_ne last.2]
          exact place
        have done := awake.finishBatch (t := t) place' more (by
          intro _ _ waits
          have woke : Function.update s.threads none .woken none = .waiting := waits
          cases woke)
        unfold CCheckQueue.goTo at done ⊢
        rw [Function.update_comm last.2]
        exact done
      · rename_i busy
        refine sound.finishBatch place more fun _ worker waits => busy ?_
        show Function.update s.threads t .locked none = .waiting
        rw [Function.update_of_ne (Ne.symm worker)]
        exact waits
    · rename_i rest
      subst cleaned
      refine sound.finishBatch place more fun equal worker _ => rest ⟨?_, worker⟩
      show s.nTodo - nNow = 0
      omega
  · rename_i place
    obtain rfl := Option.some.inj cleaned
    exact sound.comeBack place
  · cases cleaned

/-- A thread at the top of the loop takes checks. -/
theorem QueueSound.take (sound : QueueSound eval s) {t : Option W} (locked : s.threads t = .locked)
    (some_check : s.queue ≠ []) :
    QueueSound eval
      ({ s with
          queue := s.queue.drop s.nNow
          taken := s.taken ++ (s.queue.take s.nNow).map fun check => (t, check) }.goTo t
        (.running (s.queue.take s.nNow) s.nNow s.fAllOk)) := by
  have positive : 1 ≤ s.nNow := Nat.le_max_left ..
  have enough := CCheckQueue.nNow_le some_check
  refine sound.moves (t := t) (.running (s.queue.take s.nNow) s.nNow s.fAllOk) ⟨rfl, rfl, ?_, ?_, ?_,
    ?_, ?_, rfl, ?_, ?_, ?_, ?_, ?_, sound.failed, ?_, ?_, ?_⟩
  · rw [locked]
    show s.nTodo + (s.queue.length + 0) = s.nTodo + ((s.queue.drop s.nNow).length + s.nNow)
    rw [length_drop]
    omega
  · rw [locked]
    rfl
  · rw [locked]
    show s.nTotal + 1 = s.nTotal + if s.nNow = 0 then 0 else 1
    rw [if_neg (by omega)]
  · exact length_take_le ..
  · intro vChecks fOk equal
    have zero : s.nNow = 0 := (QueueThread.running.inj equal).2.1
    omega
  · show s.added.Perm (s.queue.drop s.nNow ++
      (s.taken ++ (s.queue.take s.nNow).map fun check => (t, check)).map Prod.snd)
    rw [map_append, map_map]
    have same : (Prod.snd ∘ fun check : T => (t, check)) = id := rfl
    rw [same, map_id]
    have before := sound.once
    rw [← take_append_drop s.nNow s.queue, append_assoc] at before
    refine before.trans ((perm_append_comm).trans ?_)
    rw [append_assoc]
  · intro check member
    exact mem_append_right _ (mem_map_of_mem member)
  · exact fun item member => mem_append_left _ member
  · intro item member
    rcases mem_append.mp member with old | new
    · exact Or.inl old
    · obtain ⟨check, taken, rfl⟩ := mem_map.mp new
      exact Or.inr taken
  · rw [locked]
    show s.taken.length + s.nNow ≤ (s.taken ++ _).length + 0
    rw [length_append, length_map, length_take]
    omega
  · intro vChecks nNow equal
    exact sound.failed (QueueThread.running.inj equal).2.2
  · intro ok _
    rw [locked]
    exact ⟨ok, nofun, nofun⟩
  · intro waits
    have before := waits_before (.running (s.queue.take s.nNow) s.nNow s.fAllOk) rfl nofun waits
    exact absurd (sound.master before.2).1 some_check

omit [DecidableEq W] in
/-- When nothing is unfinished, no thread has a check to execute, and none has failed that is not
cleaned up. -/
theorem QueueSound.allDone (sound : QueueSound eval s) (done : s.nTodo = 0) :
    s.queue = [] ∧ (∀ t, (s.threads t).claimed = 0) ∧ (∀ t, (s.threads t).unexecuted = []) ∧
      ∀ t vChecks nNow fOk, s.threads t = .running vChecks nNow fOk → fOk = true := by
  have todo := sound.nTodo
  have empty : s.queue = [] := length_eq_zero_iff.mp (by omega)
  have claimed : ∀ t, (s.threads t).claimed = 0 := total_eq_zero_iff.mp (by omega)
  refine ⟨empty, claimed, fun t => ?_, fun t vChecks nNow fOk place => ?_⟩
  · have batch := sound.batch t
    rw [claimed t] at batch
    exact length_eq_zero_iff.mp (Nat.le_zero.mp batch)
  have zero := claimed t
  rw [place] at zero
  have zero : nNow = 0 := zero
  rw [zero] at place
  exact sound.first t vChecks fOk place

omit [DecidableEq W] in
/-- When nothing is unfinished, all checks have been taken, and `fAllOk` says what they returned. -/
theorem QueueSound.fAllOk_eq (sound : QueueSound eval s) (done : s.nTodo = 0) :
    s.added.Perm (s.taken.map Prod.snd) ∧ s.fAllOk = s.added.all eval := by
  obtain ⟨empty, -, unexecuted, noFailure⟩ := sound.allDone done
  have once := sound.once
  rw [empty, nil_append] at once
  refine ⟨once, ?_⟩
  cases ok : s.fAllOk with
  | false =>
    obtain ⟨check, member, false_⟩ := sound.failed ok
    refine (all_eq_false.mpr ⟨check, member, ?_⟩).symm
    rw [false_]
    exact nofun
  | true =>
    refine (all_eq_true.mpr fun check member => ?_).symm
    by_contra false_
    obtain ⟨t, waits⟩ := sound.found ok noFailure check (once.mem_iff.mp member)
      (Bool.eq_false_iff.mpr false_)
    rw [unexecuted t] at waits
    cases waits

theorem QueueSound.endRound (sound : QueueSound eval s) (locked : s.threads none = .locked)
    (done : s.nTodo = 0) :
    QueueSound eval
      { { s with nTotal := s.nTotal - 1 }.goTo none .outside with
        fAllOk := true, added := [], taken := [] } := by
  obtain ⟨empty, claimed, unexecuted, noFailure⟩ := sound.allDone done
  have total : ∀ t, (Function.update s.threads none .outside t).claimed = 0 := fun t =>
    at_move (P := fun l => l.claimed = 0) (fun _ => rfl) fun _ => claimed t
  have none_total : Threads.total QueueThread.claimed (Function.update s.threads none .outside) = 0 :=
    total_eq_zero_iff.mpr total
  have idle := total_update QueueThread.idle s.threads none .outside
  have counted := total_update QueueThread.counted s.threads none .outside
  rw [locked] at idle counted
  have running : ∀ t vChecks nNow fOk,
      Function.update s.threads none .outside t = .running vChecks nNow fOk → fOk = true :=
    fun t vChecks nNow fOk =>
      at_move (P := fun l => l = .running vChecks nNow fOk → fOk = true) nofun
        fun _ => noFailure t vChecks nNow fOk
  refine ⟨sound.fQuit, ?_, ?_, ?_, ?_, ?_, ?_, ?_, ?_, nofun, ?_, fun _ _ => nofun, nofun⟩
  · show s.nTodo = s.queue.length +
      Threads.total QueueThread.claimed (Function.update s.threads none .outside)
    rw [none_total, done, empty]
    rfl
  · exact sound.nIdle.trans idle.symm
  · show s.nTotal - 1 =
      Threads.total QueueThread.counted (Function.update s.threads none .outside)
    have before := sound.nTotal
    have counted : Threads.total QueueThread.counted (Function.update s.threads none .outside) + 1 =
      Threads.total QueueThread.counted s.threads := counted
    omega
  · intro t
    exact at_move (P := fun l => l.unexecuted.length ≤ l.claimed) (fun _ => Nat.le_refl 0)
      fun _ => sound.batch t
  · exact fun t vChecks fOk => running t vChecks 0 fOk
  · show ([] : List T).Perm (s.queue ++ [])
    rw [empty]
    exact .refl _
  · intro t check member
    have nothing : (Function.update s.threads none .outside t).unexecuted = [] :=
      at_move (P := fun l => l.unexecuted = []) (fun _ => rfl) fun _ => unexecuted t
    have member : check ∈ (Function.update s.threads none .outside t).unexecuted := member
    rw [nothing] at member
    cases member
  · exact Nat.le_of_eq none_total
  · intro t vChecks nNow place
    exact absurd (running t vChecks nNow false place) nofun

/-- The second half of a section: only the master comes out of the loop, and then its round is
over. -/
theorem QueueSound.loopTop (sound : QueueSound eval s) {t : Option W}
    (locked : s.threads t = .locked) :
    QueueSound eval (s.loopTop t).1 ∧
      ∀ fRet, (s.loopTop t).2 = some fRet → t = none ∧ s.nTodo = 0 ∧ fRet = s.fAllOk ∧
        (s.loopTop t).1 = { { s with nTotal := s.nTotal - 1 }.goTo none .outside with
          fAllOk := true, added := [], taken := [] } := by
  unfold CCheckQueue.loopTop
  split
  · rename_i empty
    have empty : s.queue = [] := List.isEmpty_iff.mp empty
    split
    · rename_i ended
      rw [sound.fQuit, Bool.or_false, Bool.and_eq_true, Option.isNone_iff_eq_none, beq_iff_eq] at ended
      obtain ⟨rfl, done⟩ := ended
      exact ⟨sound.endRound locked done, fun fRet result =>
        ⟨rfl, done, (Option.some.inj result).symm, rfl⟩⟩
    rename_i goesOn
    refine ⟨sound.goIdle locked empty fun master => ?_, nofun⟩
    rw [master] at goesOn
    by_contra none_left
    have done : s.nTodo = 0 := by omega
    rw [done] at goesOn
    exact goesOn rfl
  · rename_i some_check
    refine ⟨sound.take locked fun empty => some_check ?_, nofun⟩
    rw [empty]
    rfl

theorem QueueSound.step (sound : QueueSound eval s) {s' : CCheckQueue W T}
    (step : QueueStep eval s s') : QueueSound eval s' := by
  cases step with
  | start w place => exact sound.enter place
  | wait place => exact sound.enter place
  | add vChecks place threads notified =>
    have woken := sound.wake notified.woken
    refine ⟨woken.fQuit, ?_, woken.nIdle, woken.nTotal, woken.batch, woken.first, ?_, woken.own,
      woken.claims, ?_, ?_, woken.found, ?_⟩
    · have before : s.nTodo = s.queue.length + Threads.total QueueThread.claimed threads :=
        woken.nTodo
      show s.nTodo + vChecks.length =
        (vChecks.reverse ++ s.queue).length + Threads.total QueueThread.claimed threads
      rw [length_append, length_reverse]
      omega
    · show (s.added ++ vChecks).Perm ((vChecks.reverse ++ s.queue) ++ s.taken.map Prod.snd)
      rw [append_assoc]
      exact perm_append_comm.trans (vChecks.reverse_perm.symm.append sound.once)
    · intro failed
      obtain ⟨check, member, false_⟩ := sound.failed failed
      exact ⟨check, mem_append_left _ member, false_⟩
    · intro t vChecks' nNow here
      obtain ⟨check, member, false_⟩ := woken.failedBatch t vChecks' nNow here
      exact ⟨check, mem_append_left _ member, false_⟩
    · intro waits
      have before := notified.woken.of_waiting waits
      rw [place] at before
      cases before
  | execute t check vChecks nNow fOk place => exact sound.execute place
  | critical t clean cleaned =>
    exact ((sound.cleanUp cleaned).loopTop (CCheckQueue.cleanedUp cleaned).locked).1
  | spurious t place => exact sound.wake (Woken.update s.threads place)

omit [DecidableEq W] in
theorem queueSound_init (nBatchSize : Nat) :
    QueueSound eval (CCheckQueue.init nBatchSize : CCheckQueue W T) where
  fQuit := rfl
  nTodo := by
    have none_claimed : Threads.total QueueThread.claimed
        (CCheckQueue.init nBatchSize : CCheckQueue W T).threads = 0 :=
      total_eq_zero_iff.mpr fun _ => rfl
    rw [none_claimed]
    rfl
  nIdle := (total_eq_zero_iff.mpr fun _ => rfl).symm
  nTotal := (total_eq_zero_iff.mpr fun _ => rfl).symm
  batch _ := Nat.le_refl 0
  first := nofun
  once := .refl _
  own := nofun
  claims := Nat.le_of_eq (total_eq_zero_iff.mpr fun _ => rfl)
  failed := nofun
  failedBatch := nofun
  found _ _ := nofun
  master := nofun

omit [Fintype W] in
theorem unlocked_step (unlocked : Unlocked s) (step : QueueStep eval s s') : Unlocked s' := by
  have moved : ∀ {t : Option W} {place : QueueThread T}, place ≠ .locked →
      Unlocked (s.goTo t place) := fun free t' =>
    at_move (P := fun l => l ≠ .locked) (fun _ => free) fun _ => unlocked t'
  cases step with
  | start w place => exact moved nofun
  | wait place => exact moved nofun
  | add vChecks place threads notified =>
    intro t locked
    rcases notified.woken t with same | ⟨-, woke⟩
    · exact unlocked t (same.symm.trans locked)
    · exact absurd (woke.symm.trans locked) nofun
  | execute t check vChecks nNow fOk place => exact moved nofun
  | critical t clean cleaned =>
    exact (CCheckQueue.cleanedUp cleaned).unlocked unlocked
  | spurious t place => exact moved nofun

omit [DecidableEq W] in
/-- When nothing is unfinished, the threads that count are the idle ones. -/
theorem QueueSound.isIdle (sound : QueueSound eval s) (unlocked : Unlocked s) (done : s.nTodo = 0)
    (ok : s.fAllOk = true) : s.isIdle = true := by
  have same : s.nTotal = s.nIdle := by
    rw [sound.nTotal, sound.nIdle]
    refine total_congr_measure fun t => ?_
    have claimed := (sound.allDone done).2.1 t
    cases place : s.threads t with
    | running vChecks nNow fOk =>
      rw [place] at claimed
      exact if_pos claimed
    | locked => exact absurd place (unlocked t)
    | outside => rfl
    | waiting => rfl
    | woken => rfl
  unfold CCheckQueue.isIdle
  rw [same, done, ok]
  simp

/-! ## Progress -/

/-- A run, which may stand still between two steps, where no thread stays in front of the mutex or
with checks to execute for ever. -/
structure FairRun (eval : T → Bool) (run : Nat → CCheckQueue W T) : Prop where
  step : ∀ n, run (n + 1) = run n ∨ QueueStep eval (run n) (run (n + 1))
  fair : ∀ n t, ((run n).threads t).ready → ∃ m, n ≤ m ∧ (run m).threads t ≠ (run n).threads t

/-- The work that is left of a round. -/
def CCheckQueue.work (s : CCheckQueue W T) : Nat :=
  3 * s.queue.length + Threads.total QueueThread.left s.threads

/-- A thread that moves changes the work by what is left of its own. -/
theorem work_update {s s' : CCheckQueue W T} {t : Option W} (place : QueueThread T)
    (queue : s'.queue = s.queue) (threads : s'.threads = Function.update s.threads t place) :
    s'.work + (s.threads t).left = s.work + place.left := by
  have changed := total_update QueueThread.left s.threads t place
  unfold CCheckQueue.work
  rw [queue, threads]
  omega

theorem CleanedUp.work {t : Option W} (half : CleanedUp s t clean) :
    clean.work + (s.threads t).left = s.work := by
  have changed := total_update QueueThread.left s.threads t .locked
  unfold CCheckQueue.work
  rw [half.queue, total_congr (half.threads.measure QueueThread.left rfl), Nat.add_assoc,
    changed]
  rfl

/-- Checks that are taken leave less work, in whatever batch. -/
theorem work_loopTop (s : CCheckQueue W T) (t : Option W) :
    (s.loopTop t).1.work ≤ s.work ∧ (s.queue ≠ [] → (s.loopTop t).1.work < s.work) := by
  unfold CCheckQueue.loopTop
  split
  · rename_i empty
    have same : ∀ {s' : CCheckQueue W T} (place : QueueThread T), s'.queue = s.queue →
        s'.threads = Function.update s.threads t place → place.left = 0 → s'.work ≤ s.work := by
      intro s' place queue threads nothing
      have moved := work_update place queue threads
      omega
    refine ⟨?_, fun more => absurd (List.isEmpty_iff.mp empty) more⟩
    split
    · simp only
      split
      · exact same .outside rfl rfl rfl
      · exact same .outside rfl rfl rfl
    · exact same .waiting rfl rfl rfl
  rename_i more
  have more : s.queue ≠ [] := fun empty => more (List.isEmpty_iff.mpr empty)
  have positive : 1 ≤ s.nNow := Nat.le_max_left ..
  have enough := CCheckQueue.nNow_le more
  have changed := total_update QueueThread.left s.threads t
    (.running (s.queue.take s.nNow) s.nNow s.fAllOk)
  have batch : (QueueThread.running (s.queue.take s.nNow) s.nNow s.fAllOk).left = s.nNow + 1 := by
    show (if s.nNow = 0 then 0 else (s.queue.take s.nNow).length + 1) = _
    rw [if_neg (by omega), length_take, Nat.min_eq_left enough]
  have less : 3 * (s.queue.drop s.nNow).length + Threads.total QueueThread.left
      (Function.update s.threads t (.running (s.queue.take s.nNow) s.nNow s.fAllOk)) < s.work := by
    unfold CCheckQueue.work
    rw [length_drop]
    omega
  exact ⟨Nat.le_of_lt less, fun _ => less⟩

/-- The section from which `Wait` returns. -/
def MasterReturns (s : CCheckQueue W T) (fRet : Bool) (s' : CCheckQueue W T) : Prop :=
  ∃ clean, s.cleanUp none = some clean ∧ (clean.loopTop none).2 = some fRet ∧
    s' = (clean.loopTop none).1

/-- While the master is in `Wait` no step makes work, and no check is added. -/
theorem work_step (sound : QueueSound eval s) (inside : s.threads none ≠ .outside)
    (step : QueueStep eval s s') : s'.work ≤ s.work ∧
      (s'.added = s.added ∧ s'.threads none ≠ .outside ∨ ∃ fRet, MasterReturns s fRet s') := by
  have moved : ∀ (t : Option W) (place : QueueThread T), place.left ≤ (s.threads t).left →
      place ≠ .outside → (s.goTo t place).work ≤ s.work ∧
        (s.goTo t place).added = s.added ∧ (s.goTo t place).threads none ≠ .outside := by
    intro t place less within
    have change : (s.goTo t place).work + (s.threads t).left = s.work + place.left :=
      work_update place rfl rfl
    exact ⟨by omega, rfl, at_move (P := fun l => l ≠ .outside) (fun _ => within) fun _ => inside⟩
  cases step with
  | start w place =>
    obtain ⟨less, kept⟩ := moved (some w) (.running [] 0 true) (Nat.zero_le _) nofun
    exact ⟨less, Or.inl kept⟩
  | wait place => exact absurd place inside
  | add vChecks place threads notified => exact absurd place inside
  | execute t check vChecks nNow fOk place =>
    have fewer : (QueueThread.running vChecks nNow (fOk && eval check)).left ≤
        (s.threads t).left := by
      rw [place]
      show (if nNow = 0 then 0 else vChecks.length + 1) ≤ if nNow = 0 then 0 else vChecks.length + 2
      split
      · exact Nat.le_refl _
      · exact Nat.le_succ _
    obtain ⟨less, kept⟩ := moved t _ fewer nofun
    exact ⟨less, Or.inl kept⟩
  | critical t clean cleaned =>
    have half := CCheckQueue.cleanedUp cleaned
    have first := half.work
    have second := (work_loopTop clean t).1
    refine ⟨by omega, ?_⟩
    cases result : (clean.loopTop t).2 with
    | some fRet =>
      obtain ⟨rfl, -⟩ := ((sound.cleanUp cleaned).loopTop half.locked).2 fRet result
      exact Or.inr ⟨fRet, clean, cleaned, result, rfl⟩
    | none =>
      obtain ⟨place, -, threads, stays⟩ := clean.loopTop_moves t
      obtain ⟨added, within, -⟩ := stays result
      refine Or.inl ⟨added.trans half.added, ?_⟩
      rw [threads]
      refine at_move (P := fun l => l ≠ .outside) (fun _ => within) fun other => ?_
      rcases half.others other with same | ⟨-, woke⟩
      · rw [same]
        exact inside
      · rw [woke]
        exact nofun
  | spurious t place =>
    obtain ⟨less, kept⟩ := moved t .woken (Nat.zero_le _) nofun
    exact ⟨less, Or.inl kept⟩

omit [Fintype W] in
/-- A thread that can go on is moved by its own steps only. -/
theorem ready_moved {t : Option W} (ready : (s.threads t).ready) (step : QueueStep eval s s')
    (moved : s'.threads t ≠ s.threads t) :
    (∃ check vChecks nNow fOk, s.threads t = .running (check :: vChecks) nNow fOk ∧
        s' = s.goTo t (.running vChecks nNow (fOk && eval check))) ∨
      ∃ clean, s.cleanUp t = some clean ∧ s' = (clean.loopTop t).1 := by
  have own : ∀ {t' : Option W} {place : QueueThread T},
      (s.goTo t' place).threads t ≠ s.threads t → t = t' := by
    intro t' place moved
    by_contra other
    exact moved (Function.update_of_ne other ..)
  cases step with
  | start w place =>
    obtain rfl := own moved
    rw [place] at ready
    exact ready.elim
  | wait place =>
    obtain rfl := own moved
    rw [place] at ready
    exact ready.elim
  | add vChecks place threads notified =>
    rcases notified.woken t with same | ⟨waits, -⟩
    · exact absurd same moved
    · rw [waits] at ready
      exact ready.elim
  | execute t' check vChecks nNow fOk place =>
    obtain rfl := own moved
    exact Or.inl ⟨check, vChecks, nNow, fOk, place, rfl⟩
  | critical t' clean cleaned =>
    by_cases same : t = t'
    · subst same
      exact Or.inr ⟨clean, cleaned, rfl⟩
    obtain ⟨place, -, threads, -⟩ := clean.loopTop_moves t'
    rw [threads, Function.update_of_ne same] at moved
    rcases (CCheckQueue.cleanedUp cleaned).others same with kept | ⟨waits, -⟩
    · exact absurd kept moved
    · rw [waits] at ready
      exact ready.elim
  | spurious t' place =>
    obtain rfl := own moved
    rw [place] at ready
    exact ready.elim

/-- What holds of every state that is reached. -/
theorem reached_sound {nBatchSize : Nat}
    (reached : Relation.ReflTransGen (QueueStep eval) (.init nBatchSize) s) :
    QueueSound eval s ∧ Unlocked s := by
  induction reached with
  | refl => exact ⟨queueSound_init nBatchSize, fun _ => nofun⟩
  | tail _ step ih => exact ⟨ih.1.step step, unlocked_step ih.2 step⟩

section Fair

variable {run : Nat → CCheckQueue W T} {start : Nat}

omit [Fintype W] in
theorem FairRun.reached (fair : FairRun eval run) {nBatchSize : Nat}
    (reached : Relation.ReflTransGen (QueueStep eval) (.init nBatchSize) (run 0)) (n : Nat) :
    Relation.ReflTransGen (QueueStep eval) (.init nBatchSize) (run n) := by
  induction n with
  | zero => exact reached
  | succ n ih =>
    rcases fair.step n with same | step
    · rw [same]
      exact ih
    · exact ih.tail step

omit [Fintype W] in
/-- The step with which a thread that can go on does. -/
theorem FairRun.moves (fair : FairRun eval run) {t : Option W} {n : Nat}
    (ready : ((run n).threads t).ready) :
    ∃ m, n ≤ m ∧ (run m).threads t = (run n).threads t ∧ QueueStep eval (run m) (run (m + 1)) ∧
      (run (m + 1)).threads t ≠ (run m).threads t := by
  by_contra stuck
  have stays : ∀ m, n ≤ m → (run m).threads t = (run n).threads t := by
    intro m later
    induction m, later using Nat.le_induction with
    | base => rfl
    | succ m later ih =>
      by_contra moved
      rcases fair.step m with same | step
      · exact moved (by rw [same, ih])
      · exact stuck ⟨m, later, ih, step, by rwa [ih]⟩
  obtain ⟨m, later, moved⟩ := fair.fair n t ready
  exact moved (stays m later)

/-- What the states of a round keep whose master does not return. -/
structure Unending (eval : T → Bool) (run : Nat → CCheckQueue W T) : Prop where
  fair : FairRun eval run
  sound : ∀ n, QueueSound eval (run n)
  unlocked : ∀ n, Unlocked (run n)
  inside : ∀ n, (run n).threads none ≠ .outside
  unreturned : ∀ n fRet, ¬ MasterReturns (run n) fRet (run (n + 1))

theorem Unending.work_le (unending : Unending eval run) {n m : Nat} (later : n ≤ m) :
    (run m).work ≤ (run n).work := by
  induction m, later using Nat.le_induction with
  | base => exact Nat.le_refl _
  | succ m later ih =>
    rcases unending.fair.step m with same | step
    · rw [same]
      exact ih
    · exact ((work_step (unending.sound m) (unending.inside m) step).1).trans ih

/-- A thread with a batch executes a check or cleans up. -/
theorem Unending.falls_of_batch (unending : Unending eval run) {n : Nat} {t : Option W}
    (batch : 0 < ((run n).threads t).left) : ∃ m, n ≤ m ∧ (run m).work < (run n).work := by
  have ready : ((run n).threads t).ready := by
    revert batch
    cases (run n).threads t with
    | running vChecks nNow fOk => exact fun _ => trivial
    | outside | locked | waiting | woken => exact fun none_left => absurd none_left (Nat.lt_irrefl 0)
  obtain ⟨m, later, same, step, moved⟩ := unending.fair.moves ready
  have before := unending.work_le later
  rw [← same] at batch ready
  refine ⟨m + 1, later.trans (Nat.le_succ m), lt_of_lt_of_le ?_ before⟩
  rcases ready_moved ready step moved with ⟨check, vChecks, nNow, fOk, place, after⟩ |
    ⟨clean, cleaned, after⟩
  · rw [after]
    have change : ((run m).goTo t (.running vChecks nNow (fOk && eval check))).work +
        ((run m).threads t).left = (run m).work + _ := work_update _ rfl rfl
    rw [place] at change batch
    have more : nNow ≠ 0 := by
      rintro rfl
      exact Nat.lt_irrefl 0 batch
    simp only [QueueThread.left, if_neg more, length_cons] at change
    omega
  · rw [after]
    have half := CCheckQueue.cleanedUp cleaned
    have first := half.work
    have second := (work_loopTop clean t).1
    omega

theorem QueueThread.left_pos {place : QueueThread T} (claimed : place.claimed ≠ 0) :
    0 < place.left := by
  cases place with
  | running vChecks nNow fOk =>
    have more : nNow ≠ 0 := claimed
    show 0 < if nNow = 0 then 0 else vChecks.length + 1
    rw [if_neg more]
    exact Nat.succ_pos _
  | outside | locked | waiting | woken => exact absurd rfl claimed

omit [DecidableEq W] in
/-- Where no thread has a batch, the master is not waiting for one. -/
theorem QueueSound.awake {s : CCheckQueue W T} (sound : QueueSound eval s)
    (nobody : ¬ ∃ t, 0 < (s.threads t).left) : s.threads none ≠ .waiting := by
  intro waits
  have nothing : Threads.total QueueThread.claimed s.threads = 0 := by
    refine total_eq_zero_iff.mpr fun t => ?_
    by_contra claimed
    exact nobody ⟨t, QueueThread.left_pos claimed⟩
  obtain ⟨empty, more⟩ := sound.master waits
  have todo := sound.nTodo
  rw [empty, nothing] at todo
  exact absurd todo (Nat.ne_of_gt more)

/-- There is always less work later. -/
theorem Unending.falls (unending : Unending eval run) (n : Nat) :
    ∃ m, n ≤ m ∧ (run m).work < (run n).work := by
  by_cases batch : ∃ t, 0 < ((run n).threads t).left
  · obtain ⟨t, batch⟩ := batch
    exact unending.falls_of_batch batch
  have ready : ((run n).threads none).ready := by
    cases place : (run n).threads none with
    | running vChecks nNow fOk => exact trivial
    | woken => exact trivial
    | outside => exact absurd place (unending.inside n)
    | locked => exact absurd place (unending.unlocked n none)
    | waiting => exact absurd place ((unending.sound n).awake batch)
  obtain ⟨m, later, same, step, moved⟩ := unending.fair.moves ready
  have before := unending.work_le later
  rw [← same] at ready
  rcases ready_moved ready step moved with ⟨check, vChecks, nNow, fOk, place, -⟩ |
    ⟨clean, cleaned, after⟩
  · -- a check of the master is one of a batch
    have own := (unending.sound m).batch none
    rw [place] at own
    have more : nNow ≠ 0 := Nat.ne_of_gt (lt_of_lt_of_le (Nat.succ_pos _) own)
    refine absurd ⟨none, ?_⟩ batch
    rw [← same, place]
    exact QueueThread.left_pos more
  have half := CCheckQueue.cleanedUp cleaned
  have first := half.work
  by_cases empty : clean.queue = []
  · -- it goes to sleep: another thread has a batch
    by_cases later_batch : ∃ t, 0 < ((run (m + 1)).threads t).left
    · obtain ⟨t, later_batch⟩ := later_batch
      obtain ⟨m', more, less⟩ := unending.falls_of_batch later_batch
      have between := unending.work_le (later.trans (Nat.le_succ m))
      exact ⟨m', (later.trans (Nat.le_succ m)).trans more, less.trans_le between⟩
    have awake := (unending.sound (m + 1)).awake later_batch
    cases result : (clean.loopTop none).2 with
    | some fRet => exact absurd ⟨clean, cleaned, result, after⟩ (unending.unreturned m fRet)
    | none =>
      obtain ⟨place, -, threads, stays⟩ := clean.loopTop_moves none
      refine absurd ?_ awake
      rw [after, threads, Function.update_self]
      exact (stays result).2.2 empty
  · have less := (work_loopTop clean none).2 empty
    refine ⟨m + 1, later.trans (Nat.le_succ m), ?_⟩
    rw [after]
    omega

/-- The master returns from `Wait`, behind a round in which no more checks were added. -/
theorem FairRun.returns (fair : FairRun eval run) {nBatchSize : Nat}
    (reached : Relation.ReflTransGen (QueueStep eval) (.init nBatchSize) (run 0))
    (inside : (run 0).threads none ≠ .outside) :
    ∃ n fRet, MasterReturns (run n) fRet (run (n + 1)) ∧ (run n).added = (run 0).added := by
  by_contra unending
  have sound := fun n => reached_sound (fair.reached reached n)
  have kept : ∀ n, (run n).added = (run 0).added ∧ (run n).threads none ≠ .outside := by
    intro n
    induction n with
    | zero => exact ⟨rfl, inside⟩
    | succ n ih =>
      rcases fair.step n with same | step
      · rw [same]
        exact ih
      · rcases (work_step (sound n).1 ih.2 step).2 with ⟨added, within⟩ | ⟨fRet, returned⟩
        · exact ⟨added.trans ih.1, within⟩
        · exact absurd ⟨n, fRet, returned, ih.1⟩ unending
  have never : Unending eval run :=
    ⟨fair, fun n => (sound n).1, fun n => (sound n).2, fun n => (kept n).2,
      fun n fRet returned => unending ⟨n, fRet, returned, (kept n).1⟩⟩
  exact not_falling (fun n => (run n).work) 0 fun n _ => never.falls n

end Fair

/-- What the master relies on when `Wait` returns from a section in the state `s`. -/
structure WaitReturns (eval : T → Bool) (s clean : CCheckQueue W T) (fRet : Bool)
    (s' : CCheckQueue W T) : Prop where
  nTodo : clean.nTodo = 0
  unexecuted : ∀ t, (s.threads t).unexecuted = []
  taken : s.added.Perm (s.taken.map Prod.snd)
  result : fRet = s.added.all eval
  queue : s'.queue = []
  fAllOk : s'.fAllOk = true
  unfinished : s'.nTodo = 0
  isIdle : s'.isIdle = true

/-- The state from which the master returns, and the one that it leaves. -/
theorem waitReturns (sound : QueueSound eval s) (unlocked : Unlocked s) {fRet : Bool}
    (cleaned : s.cleanUp none = some clean) (result : (clean.loopTop none).2 = some fRet) :
    WaitReturns eval s clean fRet (clean.loopTop none).1 := by
  have half := CCheckQueue.cleanedUp cleaned
  have clean_sound := sound.cleanUp cleaned
  obtain ⟨after, returns⟩ := clean_sound.loopTop half.locked
  obtain ⟨-, done, value, state⟩ := returns fRet result
  obtain ⟨taken, ok⟩ := clean_sound.fAllOk_eq done
  rw [half.added, half.taken] at taken
  refine ⟨done, fun t => ?_, taken, ?_, ?_, ?_, ?_, after.isIdle (half.unlocked unlocked) ?_ ?_⟩
  · rw [← half.unexecuted t]
    exact (clean_sound.allDone done).2.2.1 t
  · rw [value, ok, half.added]
  · rw [state]
    exact (clean_sound.allDone done).1
  · rw [state]
  · rw [state]
    exact done
  · rw [state]
    exact done
  · rw [state]

/-- In every interleaving each check is taken once, the queue does not stand still with unfinished
checks, and `Wait` returns what the checks of the round return together; in a fair run it does
return. -/
theorem check_queue_correct (eval : T → Bool) (nBatchSize : Nat) (s : CCheckQueue W T)
    (reached : Relation.ReflTransGen (QueueStep eval) (.init nBatchSize) s) :
    s.added.Perm (s.queue ++ s.taken.map Prod.snd) ∧
      ¬ (0 < s.nTodo ∧ s.threads none = .waiting ∧
        ∀ w, s.threads (some w) = .waiting ∨ s.threads (some w) = .outside) ∧
      (∀ clean fRet, s.cleanUp none = some clean → (clean.loopTop none).2 = some fRet →
        WaitReturns eval s clean fRet (clean.loopTop none).1) ∧
      (s.added = [] → s.isIdle = true) ∧
      (s.threads none ≠ .outside → ∀ run : Nat → CCheckQueue W T, FairRun eval run → run 0 = s →
        ∃ n clean fRet, (run n).cleanUp none = some clean ∧
          (clean.loopTop none).2 = some fRet ∧ run (n + 1) = (clean.loopTop none).1 ∧
          (run n).added = s.added ∧ WaitReturns eval (run n) clean fRet (run (n + 1))) := by
  obtain ⟨sound, unlocked⟩ := reached_sound reached
  refine ⟨sound.once, ?_, ?_, ?_, ?_⟩
  · rintro ⟨unfinished, master, workers⟩
    -- the master has found the queue empty, and no thread has a batch
    have nobody : Threads.total QueueThread.claimed s.threads = 0 := by
      refine total_eq_zero_iff.mpr ?_
      rintro (_ | w)
      · rw [master]
        rfl
      rcases workers w with waits | outside
      · rw [waits]
        rfl
      · rw [outside]
        rfl
    have todo := sound.nTodo
    rw [(sound.master master).1, nobody] at todo
    rw [todo] at unfinished
    exact Nat.lt_irrefl 0 unfinished
  · exact fun clean fRet => waitReturns sound unlocked
  · intro nothing
    have once := sound.once
    rw [nothing] at once
    obtain ⟨empty, none_taken⟩ := append_eq_nil_iff.mp once.symm.eq_nil
    have claims := sound.claims
    rw [map_eq_nil_iff.mp none_taken, length_nil] at claims
    have done : s.nTodo = 0 := by
      have todo := sound.nTodo
      rw [empty, length_nil] at todo
      omega
    refine sound.isIdle unlocked done ?_
    by_contra failed
    obtain ⟨check, member, -⟩ := sound.failed (Bool.eq_false_iff.mpr failed)
    rw [nothing] at member
    cases member
  · rintro inside run fair rfl
    obtain ⟨n, fRet, ⟨clean, cleaned, result, after⟩, added⟩ := fair.returns reached inside
    obtain ⟨sound, unlocked⟩ := reached_sound (fair.reached reached n)
    exact ⟨n, clean, fRet, cleaned, result, after, added,
      after ▸ waitReturns sound unlocked cleaned result⟩

end Sound

/-! ## A round with one worker, which has not started -/

/-- The master has added a check that returns true. -/
def sampleAdded : CCheckQueue Unit Bool :=
  { CCheckQueue.init 128 with queue := [true], nTodo := 1, added := [true] }

/-- It waits, -/
def sampleEntered : CCheckQueue Unit Bool := sampleAdded.goTo none (.running [] 0 true)

/-- counts itself, -/
def sampleCleaned : CCheckQueue Unit Bool := { sampleEntered with nTotal := 1 }.goTo none .locked

/-- takes the check, and executes it. -/
def sampleExecuted : CCheckQueue Unit Bool :=
  (sampleCleaned.loopTop none).1.goTo none (.running [] 1 true)

/-- It has nothing else to do. -/
def sampleRun : Nat → CCheckQueue Unit Bool
  | 0 => sampleEntered
  | 1 => (sampleCleaned.loopTop none).1
  | 2 => sampleExecuted
  | _ => (({ sampleExecuted with nTodo := 0 }.goTo none .locked).loopTop none).1

theorem sampleRun_fair : FairRun id sampleRun where
  step
    | 0 => Or.inr (.critical none sampleCleaned rfl)
    | 1 => Or.inr (.execute none true [] 1 true rfl)
    | 2 => Or.inr (.critical none _ rfl)
    | _ + 3 => Or.inl rfl
  fair
    | 0, none, _ => ⟨1, Nat.zero_le 1, nofun⟩
    | 1, none, _ => ⟨2, Nat.le_succ 1, nofun⟩
    | 2, none, _ => ⟨3, Nat.le_succ 2, nofun⟩
    | _ + 3, none, ready => ready.elim
    | 0, some (), ready | 1, some (), ready | 2, some (), ready | _ + 3, some (), ready => ready.elim

theorem check_queue_correct_sample :
    (∀ clean fRet, sampleExecuted.cleanUp none = some clean →
      (clean.loopTop none).2 = some fRet →
      WaitReturns id sampleExecuted clean fRet (clean.loopTop none).1) ∧
    ∃ n clean fRet, (sampleRun n).cleanUp none = some clean ∧
      (clean.loopTop none).2 = some fRet ∧ sampleRun (n + 1) = (clean.loopTop none).1 ∧
      (sampleRun n).added = [true] ∧
      WaitReturns id (sampleRun n) clean fRet (sampleRun (n + 1)) := by
  have added : QueueStep id (CCheckQueue.init 128) sampleAdded :=
    .add [true] rfl (CCheckQueue.init 128).threads (.noneWaits fun _ => nofun)
  have entered : QueueStep id sampleAdded sampleEntered := .wait rfl
  have taken : QueueStep id sampleEntered (sampleCleaned.loopTop none).1 :=
    .critical none sampleCleaned rfl
  have executed : QueueStep id (sampleCleaned.loopTop none).1 sampleExecuted :=
    .execute none true [] 1 true rfl
  have waiting := (Relation.ReflTransGen.single added).tail entered
  exact ⟨(check_queue_correct id 128 sampleExecuted ((waiting.tail taken).tail executed)).2.2.1,
    (check_queue_correct id 128 sampleEntered waiting).2.2.2.2 nofun sampleRun sampleRun_fair rfl⟩

end Esbcoin
