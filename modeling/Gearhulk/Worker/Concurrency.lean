import Gearhulk.Worker.Exec

/-!
# The Work loop, the `exec` goroutines and `Shutdown`, over every interleaving

For a job assignment, `handleInPack` starts `exec` in a goroutine and then sends on
`worker.limit`, a channel of capacity `limit - 1`; `exec` receives from it in its deferred
cleanup, on every path out of its body. `exec` counts itself in `activeJobs` before it asks
`isShuttingDown()`, and leaves the count in the same cleanup, before the receive. `Shutdown`
sets `shuttingDown` under the worker lock, then waits for `activeJobs` to reach zero.

`Sched` holds the shared variables and where each goroutine is; `Sched.step` is one atomic
step of one goroutine (an `Event`). A run is any list of events, so the reachable states
(`Sched.Reachable`) are those of every interleaving, with any number of `exec` goroutines.

## Main definitions

- `ExecPhase`, `ExecG` — where one `exec` goroutine is
- `Sched`, `Event`, `Sched.step`, `Sched.run`, `Sched.Reachable`

## Main results

- `Sched.Inv.step` — one step keeps the invariant `Sched.Inv`, hence every reachable state
  has it (`Sched.Reachable.inv`).
- `execs_holding_slots_le` — with a limit `N ≥ 1`, at most `N` execs are between their
  start and the release of their slot, so at most `N` are in their call.
- `shutdown_waited_finished` — once `Wait` has returned, every exec that found
  `isShuttingDown()` false has run its body and its `Done()`, and no exec is in its call.

## Design notes

An exec's call ends in one of two ways: with a result to write (`Event.finish`), or without
one (`Event.abort`): its function is not registered, or it panicked with no timeout and the
deferred `recover()` takes over (`exec_outcome`). For a function with a timeout, `finish`
is `execTimeout` returning; the function may go on running in `execTimeout`'s goroutine,
which this model does not follow.
-/

namespace Gearhulk

/-- Where one `exec` goroutine is. -/
inductive ExecPhase
  /-- `go exec(inpack)` has run; `activeJobs.Add(1)` has not. -/
  | spawned
  /-- Counted in `activeJobs`; its `isShuttingDown()` check is next. -/
  | added
  /-- Found `isShuttingDown()` false: looking its function up and calling it. -/
  | calling
  /-- The call gave a result; writing it (or dropping it when not `running`) is next. -/
  | writing
  /-- Its body has returned; the deferred `activeJobs.Done()` is next. -/
  | returned
  /-- `Done()` has run; the deferred `<-worker.limit` is next. -/
  | done
  /-- It has received from `worker.limit` (or there is no limit) and ended. -/
  | released
  deriving DecidableEq, Repr

namespace ExecPhase

/-- Counted in `activeJobs`: after `Add(1)`, before `Done()`. -/
def counted : ExecPhase → Bool
  | added | calling | writing | returned => true
  | _ => false

/-- Has not yet given its `limit` slot back. -/
def holdsSlot : ExecPhase → Bool
  | released => false
  | _ => true

@[simp] theorem counted_eq_true (p : ExecPhase) :
    p.counted = true ↔ p = added ∨ p = calling ∨ p = writing ∨ p = returned := by
  cases p <;> decide

@[simp] theorem holdsSlot_eq_true (p : ExecPhase) : p.holdsSlot = true ↔ p ≠ released := by
  cases p <;> decide

end ExecPhase

/-- One `exec` goroutine: where it is, whether its check found `isShuttingDown()` false, and
whether it reached the write of a result. -/
structure ExecG where
  phase : ExecPhase
  ran : Bool := false
  wrote : Bool := false
  deriving DecidableEq, Repr

/-- Where `Shutdown` is: not called, in `activeJobs.Wait()`, or past it. -/
inductive ShutdownPhase
  | idle
  | waiting
  | waited
  deriving DecidableEq, Repr

/-- The capacity of `worker.limit` that `New(limit)` makes: `limit - 1`; none for `Unlimited`
(`0`), where the channel is `nil`. -/
def limitCap (limit : Nat) : Option Nat := if limit = 0 then none else some (limit - 1)

/-- The shared state of the Work loop, the `exec` goroutines and `Shutdown`: the values
buffered in `worker.limit`, whether the Work loop is in its send, the execs in the order they
were started, `activeJobs`, `shuttingDown`, and where `Shutdown` is. -/
structure Sched where
  buffered : Nat := 0
  sending : Bool := false
  execs : List ExecG := []
  activeJobs : Nat := 0
  shuttingDown : Bool := false
  shutdown : ShutdownPhase := .idle
  deriving DecidableEq, Repr

/-- The state `New` leaves: nothing buffered, no exec, no shutdown. -/
def Sched.init : Sched := {}

/-- One atomic step of one goroutine. -/
inductive Event
  /-- The Work loop: `go exec(inpack)` for a job assignment. -/
  | spawn
  /-- The Work loop: `worker.limit <- true` into the channel's buffer. -/
  | send
  /-- Exec `i`: `activeJobs.Add(1)`. -/
  | add (i : Nat)
  /-- Exec `i`: `isShuttingDown()`, returning at once when it is true. -/
  | check (i : Nat)
  /-- Exec `i`: its call gives a result. -/
  | finish (i : Nat)
  /-- Exec `i`: its call ends with no result (no such function, or a recovered panic). -/
  | abort (i : Nat)
  /-- Exec `i`: `if worker.running` writes the result, and the body returns. -/
  | write (i : Nat)
  /-- Exec `i`: the deferred `activeJobs.Done()`. -/
  | done (i : Nat)
  /-- Exec `i`: the deferred `<-worker.limit`; on a channel with no buffer, it takes the
  value from the Work loop's send. -/
  | release (i : Nat)
  /-- `Shutdown`: `shuttingDown = true` under the lock. -/
  | setShuttingDown
  /-- `Shutdown`: `activeJobs.Wait()` returns, the count being zero. -/
  | wait

/-- Exec `i`, found at phase `p`, becomes `f` of itself. -/
def Sched.moveExec (s : Sched) (i : Nat) (p : ExecPhase) (f : ExecG → ExecG) : Option Sched :=
  match s.execs[i]? with
  | some e => if e.phase = p then some { s with execs := s.execs.set i (f e) } else none
  | none => none

/-- One step, with `worker.limit` of capacity `cap`; `none` when the goroutine cannot take it in
this state. -/
def Sched.step (cap : Option Nat) (s : Sched) : Event → Option Sched
  | .spawn =>
    if s.sending then none
    else some { s with execs := s.execs ++ [{ phase := .spawned }], sending := cap.isSome }
  | .send =>
    match cap with
    | some c =>
      if s.sending ∧ s.buffered < c then
        some { s with buffered := s.buffered + 1, sending := false }
      else none
    | none => none
  | .add i => (s.moveExec i .spawned fun e => { e with phase := .added }).map
      fun s => { s with activeJobs := s.activeJobs + 1 }
  | .check i => s.moveExec i .added fun e =>
      if s.shuttingDown then { e with phase := .returned }
      else { e with phase := .calling, ran := true }
  | .finish i => s.moveExec i .calling fun e => { e with phase := .writing }
  | .abort i => s.moveExec i .calling fun e => { e with phase := .returned }
  | .write i => s.moveExec i .writing fun e => { e with phase := .returned, wrote := true }
  | .done i => (s.moveExec i .returned fun e => { e with phase := .done }).map
      fun s => { s with activeJobs := s.activeJobs - 1 }
  | .release i => (s.moveExec i .done fun e => { e with phase := .released }).bind fun s' =>
      match cap with
      | none => some s'
      | some 0 => if s.sending then some { s' with sending := false } else none
      | some (_ + 1) => if 0 < s.buffered then some { s' with buffered := s.buffered - 1 } else none
  | .setShuttingDown =>
    if s.shutdown = .idle then some { s with shuttingDown := true, shutdown := .waiting } else none
  | .wait =>
    if s.shutdown = .waiting ∧ s.activeJobs = 0 then some { s with shutdown := .waited } else none

/-- A run: the events one after another; `none` once one cannot be taken. -/
def Sched.run (cap : Option Nat) (s : Sched) : List Event → Option Sched
  | [] => some s
  | e :: es => (s.step cap e).bind (Sched.run cap · es)

/-- The states some interleaving reaches from `New(limit)`. -/
def Sched.Reachable (limit : Nat) (s : Sched) : Prop :=
  ∃ es, Sched.init.run (limitCap limit) es = some s

-- ════════════════════════════════════════════════════════════════════════
-- One step
-- ════════════════════════════════════════════════════════════════════════

/-- Counting over a list after one element is replaced. -/
theorem countP_set {α : Type} {l : List α} {i : Nat} {a : α} (h : l[i]? = some a) (b : α)
    (p : α → Bool) :
    (l.set i b).countP p + (if p a then 1 else 0) = l.countP p + (if p b then 1 else 0) := by
  induction l generalizing i with
  | nil => simp at h
  | cons x xs ih =>
    cases i with
    | zero =>
      simp only [List.getElem?_cons_zero, Option.some.injEq] at h
      subst h
      simp only [List.set_cons_zero, List.countP_cons]
      omega
    | succ i =>
      simp only [List.getElem?_cons_succ] at h
      have := ih h
      simp only [List.set_cons_succ, List.countP_cons]
      omega

theorem Sched.moveExec_eq_some {s s' : Sched} {i : Nat} {p : ExecPhase} {f : ExecG → ExecG}
    (h : s.moveExec i p f = some s') :
    ∃ e, s.execs[i]? = some e ∧ e.phase = p ∧ s' = { s with execs := s.execs.set i (f e) } := by
  unfold Sched.moveExec at h
  split at h
  · next e he =>
    split_ifs at h with hp
    cases h
    exact ⟨e, he, hp, rfl⟩
  · cases h

/-- An exec's flags agree with its phase: an exec in its call or about to write found
`isShuttingDown()` false, and one before its check has found nothing yet. -/
def ExecG.Consistent (e : ExecG) : Prop :=
  (e.phase = .calling ∨ e.phase = .writing → e.ran = true) ∧
  (e.phase = .spawned ∨ e.phase = .added → e.ran = false)

/-- The invariant of the interleavings. With a limit, the execs holding a slot are the values
buffered in `worker.limit` and the one the Work loop is sending; `activeJobs` counts the
execs between `Add` and `Done`; `Shutdown` sets the flag before it waits; and once `Wait`
has returned, every exec that found the flag false is past its `Done()`. -/
structure Sched.Inv (cap : Option Nat) (s : Sched) : Prop where
  slots : cap.isSome → s.execs.countP (·.phase.holdsSlot) = s.buffered + s.sending.toNat
  buffered_le : ∀ c, cap = some c → s.buffered ≤ c
  active : s.activeJobs = s.execs.countP (·.phase.counted)
  consistent : ∀ e ∈ s.execs, e.Consistent
  flag : s.shutdown ≠ .idle → s.shuttingDown = true
  quiet : s.shutdown = .waited → ∀ e ∈ s.execs, e.ran = true → e.phase = .done ∨ e.phase = .released

theorem Sched.Inv.init (cap : Option Nat) : Sched.init.Inv cap :=
  ⟨fun _ => rfl, fun _ _ => Nat.zero_le _, rfl, fun _ h => (nomatch h), fun h => absurd rfl h,
    fun h => (nomatch h)⟩

section Step

variable {cap : Option Nat} {s s' : Sched} {i : Nat} {e e' : ExecG}

/-- An exec in its call or about to write cannot be one that `quiet` has found finished. -/
theorem Sched.Inv.not_waited (hi : s.Inv cap) (he : s.execs[i]? = some e)
    (hp : e.phase = .calling ∨ e.phase = .writing) : s.shutdown ≠ .waited := fun hw => by
  have hmem := List.getElem?_mem he
  rcases hi.quiet hw e hmem ((hi.consistent e hmem).1 hp) with h | h <;>
    rcases hp with hp | hp <;> simp_all

/-- Replacing exec `i` by `d` and setting the counts keeps the invariant, if the new state is
consistent, is finished after `Wait` when it ran, `activeJobs` follows it, and the slots held
are still the values buffered and the one being sent. -/
theorem Sched.Inv.setExecSlots (hi : s.Inv cap) (he : s.execs[i]? = some e) (d : ExecG)
    (hcons : d.Consistent)
    (hq : s.shutdown = .waited → d.ran = true → d.phase = .done ∨ d.phase = .released)
    (n : Nat) (hn : n + (if e.phase.counted then 1 else 0) =
      s.activeJobs + (if d.phase.counted then 1 else 0))
    (b : Nat) (snd : Bool)
    (hs : cap.isSome → b + snd.toNat + (if e.phase.holdsSlot then 1 else 0) =
      s.buffered + s.sending.toNat + (if d.phase.holdsSlot then 1 else 0))
    (hb : ∀ c, cap = some c → b ≤ c) :
    Sched.Inv cap
      { s with execs := s.execs.set i d, activeJobs := n, buffered := b, sending := snd } := by
  have hslot := countP_set he d (·.phase.holdsSlot)
  have hcount := countP_set he d (·.phase.counted)
  refine ⟨fun h => ?_, hb, ?_, fun x hx => ?_, hi.flag, fun hw x hx => ?_⟩
  · have := hi.slots h; have := hs h; dsimp only; omega
  · have := hi.active; dsimp only; omega
  · rcases List.mem_or_eq_of_mem_set hx with hx | rfl
    exacts [hi.consistent x hx, hcons]
  · rcases List.mem_or_eq_of_mem_set hx with hx | rfl
    exacts [hi.quiet hw x hx, hq hw]

/-- `setExecSlots` for a state that holds its slot as the old one did. -/
theorem Sched.Inv.setExec (hi : s.Inv cap) (he : s.execs[i]? = some e) (d : ExecG)
    (hs : d.phase.holdsSlot = e.phase.holdsSlot) (hcons : d.Consistent)
    (hq : s.shutdown = .waited → d.ran = true → d.phase = .done ∨ d.phase = .released)
    (n : Nat) (hn : n + (if e.phase.counted then 1 else 0) =
      s.activeJobs + (if d.phase.counted then 1 else 0)) :
    Sched.Inv cap { s with execs := s.execs.set i d, activeJobs := n } :=
  hi.setExecSlots he d hcons hq n hn s.buffered s.sending (fun _ => by rw [hs]) hi.buffered_le

theorem Sched.Inv.spawn (hi : s.Inv cap) (h : s.step cap .spawn = some s') : s'.Inv cap := by
  simp only [Sched.step] at h
  split_ifs at h with hsend
  cases h
  refine ⟨fun hc => ?_, hi.buffered_le, ?_, fun x hx => ?_, hi.flag, fun hw x hx hr => ?_⟩
  · have := hi.slots hc
    simp only [List.countP_append, hc]
    simp_all
  · simp [hi.active]
  · rcases List.mem_append.1 hx with hx | hx
    · exact hi.consistent x hx
    · simp only [List.mem_singleton] at hx; subst hx; simp [ExecG.Consistent]
  · rcases List.mem_append.1 hx with hx | hx
    · exact hi.quiet hw x hx hr
    · simp only [List.mem_singleton] at hx; subst hx; cases hr

theorem Sched.Inv.send (hi : s.Inv cap) (h : s.step cap .send = some s') : s'.Inv cap := by
  cases cap with
  | none => cases h
  | some c =>
    simp only [Sched.step] at h
    split_ifs at h with hs
    cases h
    refine ⟨fun _ => ?_, fun c' hc' => ?_, hi.active, hi.consistent, hi.flag, hi.quiet⟩
    · have := hi.slots rfl; simp_all
    · cases hc'; dsimp only; omega

theorem Sched.Inv.add (hi : s.Inv cap) (h : s.step cap (.add i) = some s') : s'.Inv cap := by
  simp only [Sched.step, Option.map_eq_some'] at h
  obtain ⟨s₁, h₁, rfl⟩ := h
  obtain ⟨e, he, hp, rfl⟩ := Sched.moveExec_eq_some h₁
  have hr := (hi.consistent e (List.getElem?_mem he)).2 (.inl hp)
  exact hi.setExec he { e with phase := .added } (by rw [hp]; rfl)
    ⟨fun h => by simp at h, fun _ => hr⟩ (fun _ h => by simp [hr] at h) _ (by simp [hp])

theorem Sched.Inv.check (hi : s.Inv cap) (h : s.step cap (.check i) = some s') : s'.Inv cap := by
  obtain ⟨e, he, hp, rfl⟩ := Sched.moveExec_eq_some h
  have hr := (hi.consistent e (List.getElem?_mem he)).2 (.inr hp)
  by_cases hsd : s.shuttingDown = true
  · rw [if_pos hsd]
    exact hi.setExec he { e with phase := .returned } (by rw [hp]; rfl)
      ⟨fun h => by simp at h, fun h => by simp at h⟩ (fun _ h => by simp [hr] at h) _ (by simp [hp])
  · rw [if_neg hsd]
    exact hi.setExec he { e with phase := .calling, ran := true } (by rw [hp]; rfl)
      ⟨fun _ => rfl, fun h => by simp at h⟩
      (fun hw => absurd (hi.flag (by rw [hw]; decide)) hsd) _ (by simp [hp])

theorem Sched.Inv.finish (hi : s.Inv cap) (h : s.step cap (.finish i) = some s') :
    s'.Inv cap := by
  obtain ⟨e, he, hp, rfl⟩ := Sched.moveExec_eq_some h
  have hr := (hi.consistent e (List.getElem?_mem he)).1 (.inl hp)
  exact hi.setExec he { e with phase := .writing } (by rw [hp]; rfl)
    ⟨fun _ => hr, fun h => by simp at h⟩ (fun hw => absurd hw (hi.not_waited he (.inl hp))) _
    (by simp [hp])

theorem Sched.Inv.abort (hi : s.Inv cap) (h : s.step cap (.abort i) = some s') : s'.Inv cap := by
  obtain ⟨e, he, hp, rfl⟩ := Sched.moveExec_eq_some h
  exact hi.setExec he { e with phase := .returned } (by rw [hp]; rfl)
    ⟨fun h => by simp at h, fun h => by simp at h⟩
    (fun hw => absurd hw (hi.not_waited he (.inl hp))) _ (by simp [hp])

theorem Sched.Inv.write (hi : s.Inv cap) (h : s.step cap (.write i) = some s') : s'.Inv cap := by
  obtain ⟨e, he, hp, rfl⟩ := Sched.moveExec_eq_some h
  exact hi.setExec he { e with phase := .returned, wrote := true } (by rw [hp]; rfl)
    ⟨fun h => by simp at h, fun h => by simp at h⟩
    (fun hw => absurd hw (hi.not_waited he (.inr hp))) _ (by simp [hp])

theorem Sched.Inv.done (hi : s.Inv cap) (h : s.step cap (.done i) = some s') : s'.Inv cap := by
  simp only [Sched.step, Option.map_eq_some'] at h
  obtain ⟨s₁, h₁, rfl⟩ := h
  obtain ⟨e, he, hp, rfl⟩ := Sched.moveExec_eq_some h₁
  have hpos : 0 < s.activeJobs :=
    hi.active ▸ List.countP_pos_iff.2 ⟨e, List.getElem?_mem he, by simp [hp]⟩
  exact hi.setExec he { e with phase := .done } (by rw [hp]; rfl)
    ⟨fun h => by simp at h, fun h => by simp at h⟩ (fun _ _ => .inl rfl) _
    (by simp [hp]; omega)

theorem Sched.Inv.release (hi : s.Inv cap) (h : s.step cap (.release i) = some s') :
    s'.Inv cap := by
  simp only [Sched.step, Option.bind_eq_some] at h
  obtain ⟨s₁, h₁, h⟩ := h
  obtain ⟨e, he, hp, rfl⟩ := Sched.moveExec_eq_some h₁
  have hset := hi.setExecSlots he { e with phase := .released }
    ⟨fun h => by simp at h, fun h => by simp at h⟩ (fun _ _ => .inr rfl) s.activeJobs (by simp [hp])
  cases cap with
  | none => cases h; exact hset _ _ (fun hc => absurd hc (by decide)) hi.buffered_le
  | some c =>
    cases c with
    | zero =>
      -- the exec takes the value the Work loop is sending
      simp only at h
      split_ifs at h with hsend
      cases h
      exact hset s.buffered false (fun _ => by simp [hp, hsend]) hi.buffered_le
    | succ c =>
      -- the exec takes a buffered value
      simp only at h
      split_ifs at h with hbuf
      cases h
      exact hset (s.buffered - 1) s.sending (fun _ => by simp [hp]; omega)
        (fun c' hc' => (Nat.sub_le _ _).trans (hi.buffered_le c' hc'))

theorem Sched.Inv.setShuttingDown (hi : s.Inv cap) (h : s.step cap .setShuttingDown = some s') :
    s'.Inv cap := by
  simp only [Sched.step] at h
  split_ifs at h with hidle
  cases h
  exact ⟨hi.slots, hi.buffered_le, hi.active, hi.consistent, fun _ => rfl, fun h => (nomatch h)⟩

theorem Sched.Inv.wait (hi : s.Inv cap) (h : s.step cap .wait = some s') : s'.Inv cap := by
  simp only [Sched.step] at h
  split_ifs at h with hw
  cases h
  refine ⟨hi.slots, hi.buffered_le, hi.active, hi.consistent,
    fun _ => hi.flag (by rw [hw.1]; decide), fun _ x hx hr => ?_⟩
  have hnc := List.countP_eq_zero.1
    (hi.active ▸ hw.2 : s.execs.countP (·.phase.counted) = 0) x hx
  have hc := hi.consistent x hx
  cases hp : x.phase <;> simp_all [ExecG.Consistent]

/-- One step of any goroutine keeps the invariant. -/
theorem Sched.Inv.step (hi : s.Inv cap) {ev : Event} (h : s.step cap ev = some s') :
    s'.Inv cap := by
  cases ev with
  | spawn => exact hi.spawn h
  | send => exact hi.send h
  | add i => exact hi.add h
  | check i => exact hi.check h
  | finish i => exact hi.finish h
  | abort i => exact hi.abort h
  | write i => exact hi.write h
  | done i => exact hi.done h
  | release i => exact hi.release h
  | setShuttingDown => exact hi.setShuttingDown h
  | wait => exact hi.wait h

theorem Sched.Inv.run (hi : s.Inv cap) {es : List Event} (h : s.run cap es = some s') :
    s'.Inv cap := by
  induction es generalizing s with
  | nil => cases h; exact hi
  | cons ev es ih =>
    obtain ⟨s₁, h₁, h⟩ := Option.bind_eq_some.1 h
    exact ih (hi.step h₁) h

end Step

/-- Every state of every interleaving has the invariant. -/
theorem Sched.Reachable.inv {limit : Nat} {s : Sched} (h : s.Reachable limit) :
    s.Inv (limitCap limit) :=
  let ⟨_, hrun⟩ := h
  (Sched.Inv.init _).run hrun

-- ════════════════════════════════════════════════════════════════════════
-- The limit
-- ════════════════════════════════════════════════════════════════════════

/-- With a limit `N ≥ 1`, in every state of every interleaving at most `N` execs have started
and not yet released their slot, so at most `N` are in their call; with `OneByOne` (`N = 1`)
no two calls overlap. -/
theorem execs_holding_slots_le {N : Nat} (hN : 1 ≤ N) {s : Sched} (h : s.Reachable N) :
    s.execs.countP (·.phase.holdsSlot) ≤ N ∧ s.execs.countP (·.phase = .calling) ≤ N := by
  have hi := h.inv
  have hcap : limitCap N = some (N - 1) := if_neg (by omega)
  have hslots := hi.slots (by simp [hcap])
  have hbuf := hi.buffered_le _ hcap
  have hsend : s.sending.toNat ≤ 1 := Bool.toNat_le _
  have hcall : s.execs.countP (·.phase = .calling) ≤ s.execs.countP (·.phase.holdsSlot) :=
    List.countP_mono_left fun x _ hx => by simp_all
  omega

/-- Two jobs in their calls at once under the limit `2`. -/
theorem execs_holding_slots_le_two :
    ∃ s, Sched.init.run (limitCap 2)
        [.spawn, .send, .spawn, .add 0, .check 0, .add 1, .check 1] = some s ∧
      s.execs.countP (·.phase.holdsSlot) ≤ 2 ∧ s.execs.countP (·.phase = .calling) ≤ 2 :=
  ⟨_, rfl, execs_holding_slots_le (by decide)
    ⟨[.spawn, .send, .spawn, .add 0, .check 0, .add 1, .check 1], rfl⟩⟩

-- ════════════════════════════════════════════════════════════════════════
-- Shutdown
-- ════════════════════════════════════════════════════════════════════════

/-- Once `Shutdown`'s `Wait` has returned, in every state of every interleaving: each exec that
found `isShuttingDown()` false has run its body to the end and its deferred `Done()`, and no
exec is in its call or has a result still to write. -/
theorem shutdown_waited_finished {limit : Nat} {s : Sched} (h : s.Reachable limit)
    (hw : s.shutdown = .waited) :
    ∀ e ∈ s.execs, (e.ran = true → e.phase = .done ∨ e.phase = .released) ∧
      e.phase ≠ .calling ∧ e.phase ≠ .writing := by
  intro e he
  have hi := h.inv
  have hq := hi.quiet hw e he
  have hc := (hi.consistent e he).1
  refine ⟨hq, fun hp => ?_, fun hp => ?_⟩ <;> simp_all

/-- An exec started before `Wait` returns and checked after: it returns at once. -/
theorem shutdown_waited_finished_late_exec :
    ∃ s, Sched.init.run (limitCap 0) [.spawn, .setShuttingDown, .wait, .add 0, .check 0] = some s ∧
      ∀ e ∈ s.execs, (e.ran = true → e.phase = .done ∨ e.phase = .released) ∧
        e.phase ≠ .calling ∧ e.phase ≠ .writing :=
  ⟨_, rfl, shutdown_waited_finished ⟨[.spawn, .setShuttingDown, .wait, .add 0, .check 0], rfl⟩ rfl⟩

/-- After `Wait` has returned, an exec that found `isShuttingDown()` false may have written no
packet: its call ended with no result (its function is not registered, or panicked with no
timeout). -/
theorem shutdown_waited_without_write :
    ∃ s, Sched.init.run (limitCap 1)
        [.spawn, .add 0, .check 0, .abort 0, .done 0, .release 0, .setShuttingDown, .wait] =
        some s ∧
      s.shutdown = .waited ∧ ∃ e ∈ s.execs, e.ran = true ∧ e.wrote = false :=
  ⟨_, rfl, rfl, _, List.mem_singleton_self _, rfl, rfl⟩

end Gearhulk
