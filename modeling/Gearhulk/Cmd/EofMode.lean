import Gearhulk.Cmd.Pipes

/-!
# EOF mode from start to end, over every interleaving

`processJobWithNewSubprocess` writes the payload to the subprocess's standard input, closes
it, reads standard output to its end, then standard error, then waits for the subprocess and
returns what it read of standard output. This module follows such a job in the model of
`Gearhulk.Cmd.Pipes` through every interleaving of the handler and the subprocess, to its end.

When what the command writes to standard error fits that pipe, and either the payload fits
standard input (with room for a byte in standard output) or the command's output fits standard
output (with room for a byte in standard input), no interleaving blocks for ever: every
schedule of steps is at most as long as a bound fixed by the payload and the command's output,
and every state where neither party can move is the handler returned, with no error and with
exactly what the command writes to standard output over the payload. Beside
`subprocess_deadlocks`, this bounds where the deadlock of EOF mode lies.

## Main definitions

- `LineCommand.output`, `LineCommand.warnings` — what the command writes to standard output and
  to standard error over an input
- `Sys.run` — the state a schedule of steps reaches
- `EofStage`, `Flowing`, `FitsStdin` — the pipes in each phase of EOF mode, the invariant of a job,
  and a payload that fits standard input

## Main results

- `run_length_le_of_measure` — under an invariant where every step raises a bounded measure,
  every schedule is at most as long as the bound.
- `Flowing.step` — every step keeps `Flowing` and raises `Sys.flow`.
- `Flowing.done_of_stuck` — a `Flowing` state where neither party moves is the handler
  returned with the command's output.
- `processJobWithNewSubprocess_returns_output` — a payload that fits standard input.
- `processJobWithNewSubprocess_returns_output_of_output_fits` — an output that fits standard
  output, whatever the length of the payload.

## Design notes

Nothing fails here: `cmd.Start()` has returned, every write and read succeeds, and the
subprocess exits with status `0`. `Flowing` carries two counts besides the state: the bytes
the subprocess has read, and those the handler has read of standard error, which the returned
handler no longer holds.
-/

namespace Gearhulk

-- ════════════════════════════════════════════════════════════════════════
-- What the command writes
-- ════════════════════════════════════════════════════════════════════════

/-- What the command writes to standard output over `input`, having read `line` of its current
line: its answer and a newline for each line, and its answer to a last unterminated line. -/
def LineCommand.output (p : LineCommand) : Bytes → Bytes → Bytes
  | line, [] => if line = [] then [] else p.answer line
  | line, b :: bs =>
    if b = newline then p.answer line ++ [newline] ++ p.output [] bs
    else p.output (line ++ [b]) bs

/-- What the command writes to standard error over `input` in EOF mode, having read `line` of
its current line. -/
def LineCommand.warnings (p : LineCommand) : Bytes → Bytes → Bytes
  | line, [] => if line = [] then [] else p.warn line
  | line, b :: bs =>
    if b = newline then p.warn line ++ p.warnings [] bs else p.warnings (line ++ [b]) bs

example : LineCommand.cat.output [] [97, 10, 98] = [97, 10, 98] := by decide

section Child

variable {p : LineCommand} {ch : Child}

/-- Reading a byte moves the command's answers from what it will write to what it has to
write. -/
theorem Child.readByte_output (md : Mode) (ho : ch.out = []) (b : UInt8) (bs : Bytes) :
    (ch.readByte p md b).out ++ p.output (ch.readByte p md b).line bs =
      p.output ch.line (b :: bs) := by
  by_cases h : b = newline
  · simp [Child.readByte, LineCommand.output, h]
  · simp [Child.readByte, LineCommand.output, h, ho]

theorem Child.readByte_warnings (he : ch.err = []) (b : UInt8) (bs : Bytes) :
    (ch.readByte p .eof b).err.length + (p.warnings (ch.readByte p .eof b).line bs).length =
      (p.warnings ch.line (b :: bs)).length := by
  by_cases h : b = newline
  · simp [Child.readByte, LineCommand.warnings, errFor, h]
  · simp [Child.readByte, LineCommand.warnings, h, he]

@[simp] theorem Child.readEnd_eof (md : Mode) (ch : Child) : (ch.readEnd p md).eof = true := rfl

theorem Child.readEnd_out (md : Mode) (ch : Child) :
    (ch.readEnd p md).out = p.output ch.line [] := by
  simp [Child.readEnd, LineCommand.output]

theorem Child.readEnd_err (ch : Child) : (ch.readEnd p .eof).err = p.warnings ch.line [] := by
  simp [Child.readEnd, LineCommand.warnings, errFor]

end Child

-- ════════════════════════════════════════════════════════════════════════
-- Schedules
-- ════════════════════════════════════════════════════════════════════════

/-- The state the schedule `as` of steps reaches from `s`, `none` when a party in it cannot
move. -/
def Sys.run (c : Caps) (p : LineCommand) : Sys → List Party → Option Sys
  | s, [] => some s
  | s, a :: as => (s.step c p a).bind fun t => Sys.run c p t as

/-- Under an invariant `I i`, indexed by `i`, every step raises a measure `m` bounded by `B`:
a schedule from a state with the invariant is at most as long as what `m` has left to `B`, and
ends in a state with the invariant. -/
theorem run_length_le_of_measure {c : Caps} {p : LineCommand} {ι : Type} {I : ι → Sys → Prop}
    (m : ι → Sys → Nat) (B : Nat)
    (hstep : ∀ {i s a t}, I i s → s.step c p a = some t → ∃ i', I i' t ∧ m i s < m i' t)
    (hle : ∀ {i s}, I i s → m i s ≤ B) (as : List Party) :
    ∀ {i : ι} {s t : Sys}, I i s → Sys.run c p s as = some t →
      as.length + m i s ≤ B ∧ ∃ i', I i' t := by
  induction as with
  | nil =>
    intro i s t hi h
    simp only [Sys.run, Option.some.injEq] at h
    subst h
    exact ⟨by simpa using hle hi, i, hi⟩
  | cons a as ih =>
    intro i s t hi h
    obtain ⟨u, hu, h⟩ := Option.bind_eq_some.1 h
    obtain ⟨i', hi', hlt⟩ := hstep hi hu
    obtain ⟨hlen, hfin⟩ := ih hi' h
    exact ⟨by simp only [List.length_cons]; omega, hfin⟩

-- ════════════════════════════════════════════════════════════════════════
-- The invariant of EOF mode
-- ════════════════════════════════════════════════════════════════════════

/-- What the handler has read of standard output, in each phase of EOF mode. -/
def Phase.outRead : Phase → Bytes
  | .readOut out | .readErr out _ | .wait out _ | .done out _ => out
  | _ => []

/-- How far the handler is in its job, in either mode. -/
def Phase.rank : Phase → Nat
  | .write _ => 0
  | .readOut _ => 1
  | .readErr _ _ => 2
  | .wait _ _ => 3
  | .done _ _ => 4
  | .readLine _ _ _ => 2

/-- The pipes in each phase of EOF mode: standard input is open exactly while the handler
writes, and standard output is closed and empty once the handler has read it to its end. -/
def EofStage (s : Sys) : Prop :=
  match s.worker with
  | .write _ => s.stdin.closed = false
  | .readOut _ => s.stdin.closed = true
  | .readErr _ _ | .wait _ _ | .done _ none => s.stdout.closed = true ∧ s.stdout.buf = []
  | _ => False

/-- What holds in every run of EOF mode on the payload `data`, the subprocess having read `C`
bytes of it and the handler `E` bytes of standard error: what the handler has yet to write
follows what standard input holds in the payload; the subprocess reads the end of its input
only once standard input is closed, and its exit closes both its pipes at once, its answers
written; and the command's output over the payload
is what the handler has read, then what standard output holds, then what the subprocess has
to write, then what it will write over the rest of its input, and so for standard error. -/
structure Flowing (c : Caps) (p : LineCommand) (data : Bytes) (C E : Nat) (s : Sys) : Prop where
  mode : s.mode = .eof
  consumed_le : C ≤ data.length
  stream : data.drop C = s.stdin.buf ++ s.worker.toWrite
  stdin_le : s.stdin.buf.length ≤ c.stdin
  stage : EofStage s
  out_closed : s.stdout.closed = s.child.exited
  err_closed : s.stderr.closed = s.child.exited
  exited : s.child.exited = true → s.child.out = [] ∧ s.child.err = [] ∧ s.child.eof = true
  eof_closed : s.child.eof = true → s.stdin.closed = true
  output : s.worker.outRead ++ s.stdout.buf ++ s.child.out ++
      (if s.child.eof then [] else p.output s.child.line (data.drop C)) = p.output [] data
  warnings : E + s.stderr.buf.length + s.child.err.length +
      (if s.child.eof then 0 else (p.warnings s.child.line (data.drop C)).length) =
    (p.warnings [] data).length

/-- The bytes moved in EOF mode, the subprocess having read `C` and the handler `E` of standard
error, and the phases passed: each step of either party raises it. -/
def Sys.flow (s : Sys) (C E : Nat) : Nat :=
  2 * C + s.stdin.buf.length + 2 * s.worker.outRead.length + s.stdout.buf.length + 2 * E +
    s.stderr.buf.length + s.worker.rank + s.child.eof.toNat + s.child.exited.toNat

section Flowing

variable {c : Caps} {p : LineCommand} {data : Bytes} {C E : Nat} {s t : Sys}

theorem flowing_start : Flowing c p data 0 0 (processJobWithNewSubprocess data) :=
  ⟨rfl, Nat.zero_le _, rfl, Nat.zero_le _, rfl, rfl, rfl, nofun, nofun,
    by simp [processJobWithNewSubprocess, Phase.outRead], by simp [processJobWithNewSubprocess]⟩

/-- A step of the subprocess leaves the handler and standard input's write end alone; while
standard output is open, the handler writes or reads standard output, so the stage is kept. -/
theorem EofStage.keep (hst : EofStage s) (hopen : s.stdout.closed = false)
    (hw : t.worker = s.worker) (hin : t.stdin.closed = s.stdin.closed) : EofStage t := by
  unfold EofStage at hst ⊢
  rw [hw, hin]
  split at hst <;> simp_all

/-- Once standard input is closed, the handler has nothing left to write. -/
theorem EofStage.toWrite_nil (hst : EofStage s) (hc : s.stdin.closed = true) :
    s.worker.toWrite = [] := by
  unfold EofStage at hst
  split at hst <;> simp_all [Phase.toWrite]

/-- The subprocess moves only while it runs. -/
theorem Flowing.not_exited (hf : Flowing c p data C E s) (h : childStep c p s = some t) :
    s.child.exited = false := by
  cases hx : s.child.exited
  · rfl
  · obtain ⟨ho, he, -⟩ := hf.exited hx
    rw [childStep_idle ho he, if_pos hx] at h
    cases h

theorem Flowing.flow_le (hf : Flowing c p data C E s) :
    s.flow C E ≤ 2 * data.length + c.stdin + 2 * (p.output [] data).length +
      2 * (p.warnings [] data).length + 6 := by
  have hout := congrArg List.length hf.output
  have herr := hf.warnings
  simp only [List.length_append] at hout
  have := hf.consumed_le
  have := hf.stdin_le
  have : s.worker.rank ≤ 4 := by unfold Phase.rank; split <;> omega
  have := s.child.eof.toNat_le
  have := s.child.exited.toNat_le
  unfold Sys.flow
  omega

/-- Every step of the handler keeps `Flowing` and raises `Sys.flow`. -/
theorem Flowing.workerStep (hf : Flowing c p data C E s) (h : workerStep c s = some t) :
    ∃ C' E', Flowing c p data C' E' t ∧ s.flow C E < t.flow C' E' := by
  have hst := hf.stage
  cases hwk : s.worker with
  | write r =>
    simp only [EofStage, hwk] at hst
    cases r with
    | cons b r =>
      -- the handler writes the byte `b`
      rw [workerStep_write hwk] at h
      split_ifs at h with hroom
      cases h
      refine ⟨C, E, { hf with
        stream := by rw [hf.stream, hwk]; simp [Phase.toWrite]
        stdin_le := by simp only [List.length_append, List.length_singleton]; omega
        stage := hst
        output := by rw [← hf.output, hwk]; rfl }, ?_⟩
      simp only [Sys.flow, hwk, Phase.outRead, Phase.rank, List.length_append,
        List.length_singleton]
      omega
    | nil =>
      -- the handler closes standard input
      rw [workerStep_close hwk hf.mode] at h
      cases h
      refine ⟨C, E, { hf with
        stream := by rw [hf.stream, hwk]; rfl
        stage := rfl
        eof_closed := fun _ => rfl
        output := by rw [← hf.output, hwk]; rfl }, ?_⟩
      simp only [Sys.flow, hwk, Phase.outRead, Phase.rank]
      omega
  | readOut out =>
    simp only [EofStage, hwk] at hst
    have hnil : s.worker.toWrite = [] := by rw [hwk]; rfl
    rw [workerStep_readOut hwk] at h
    cases hb : s.stdout.buf with
    | nil =>
      -- the handler sees the end of standard output
      rw [hb] at h
      split_ifs at h with hcl
      cases h
      refine ⟨C, E, { hf with
        stream := by rw [hf.stream, hnil]; rfl
        stage := ⟨hcl, hb⟩
        output := by rw [← hf.output, hwk]; rfl }, ?_⟩
      simp only [Sys.flow, hwk, Phase.outRead, Phase.rank]
      omega
    | cons b bs =>
      -- the handler reads a byte of standard output
      rw [hb] at h
      cases h
      refine ⟨C, E, { hf with
        stream := by rw [hf.stream, hnil]; rfl
        stage := hst
        output := by rw [← hf.output, hwk, hb]; simp [Phase.outRead] }, ?_⟩
      simp only [Sys.flow, hwk, hb, Phase.outRead, Phase.rank, List.length_append,
        List.length_singleton, List.length_cons]
      omega
  | readErr out err =>
    simp only [EofStage, hwk] at hst
    have hnil : s.worker.toWrite = [] := by rw [hwk]; rfl
    rw [workerStep_readErr hwk] at h
    cases hb : s.stderr.buf with
    | nil =>
      -- the handler sees the end of standard error
      rw [hb] at h
      split_ifs at h
      cases h
      refine ⟨C, E, { hf with
        stream := by rw [hf.stream, hnil]; rfl
        stage := hst
        output := by rw [← hf.output, hwk]; rfl }, ?_⟩
      simp only [Sys.flow, hwk, Phase.outRead, Phase.rank]
      omega
    | cons b bs =>
      -- the handler reads a byte of standard error
      rw [hb] at h
      cases h
      refine ⟨C, E + 1, { hf with
        stream := by rw [hf.stream, hnil]; rfl
        stage := hst
        output := by rw [← hf.output, hwk]; rfl
        warnings := by
          have := hf.warnings
          rw [hb, List.length_cons] at this
          dsimp only
          omega }, ?_⟩
      simp only [Sys.flow, hwk, hb, Phase.outRead, Phase.rank, List.length_cons]
      omega
  | wait out err =>
    -- the handler's `cmd.Wait()` returns
    simp only [EofStage, hwk] at hst
    have hnil : s.worker.toWrite = [] := by rw [hwk]; rfl
    rw [workerStep_wait hwk] at h
    split_ifs at h
    cases h
    refine ⟨C, E, { hf with
      stream := by rw [hf.stream, hnil]; rfl
      stage := hst
      output := by rw [← hf.output, hwk]; rfl }, ?_⟩
    simp only [Sys.flow, hwk, Phase.outRead, Phase.rank]
    omega
  | readLine n cur acc => simp [EofStage, hwk] at hst
  | done r e =>
    unfold Gearhulk.workerStep at h
    rw [hwk] at h
    cases h

/-- Every step of the subprocess keeps `Flowing` and raises `Sys.flow`. -/
theorem Flowing.childStep (hf : Flowing c p data C E s) (h : childStep c p s = some t) :
    ∃ C' E', Flowing c p data C' E' t ∧ s.flow C E < t.flow C' E' := by
  have hx := hf.not_exited h
  have hopen : s.stdout.closed = false := hf.out_closed.trans hx
  cases ho : s.child.out with
  | cons o os =>
    -- the subprocess writes a byte of its answers
    rw [childStep_out ho] at h
    split_ifs at h
    cases h
    refine ⟨C, E, { hf with
      stage := hf.stage.keep hopen rfl rfl
      exited := by simp [hx]
      output := by rw [← hf.output, ho]; simp }, ?_⟩
    simp only [Sys.flow, List.length_append, List.length_singleton]
    omega
  | nil =>
    cases he : s.child.err with
    | cons e es =>
      -- the subprocess writes a byte of its warnings
      rw [childStep_err ho he] at h
      split_ifs at h
      cases h
      refine ⟨C, E, { hf with
        stage := hf.stage.keep hopen rfl rfl
        exited := by simp [hx]
        warnings := by
          have := hf.warnings
          rw [he, List.length_cons] at this
          simp only [List.length_append, List.length_singleton]
          omega }, ?_⟩
      simp only [Sys.flow, List.length_append, List.length_singleton]
      omega
    | nil =>
      rw [childStep_idle ho he, if_neg (by simp [hx])] at h
      split at h
      · -- the subprocess exits, closing both its pipes
        rename_i hend
        cases h
        refine ⟨C, E, { hf with
          stage := hf.stage.keep hopen rfl rfl
          out_closed := rfl
          err_closed := rfl
          exited := fun _ => ⟨ho, he, hend⟩ }, ?_⟩
        simp only [Sys.flow, hx, Bool.toNat_true, Bool.toNat_false]
        omega
      rename_i hend
      cases hin : s.stdin.buf with
      | cons x xs =>
        -- the subprocess reads the byte `x`
        rw [hin] at h
        cases h
        have hs : data.drop C = x :: (xs ++ s.worker.toWrite) := by rw [hf.stream, hin]; rfl
        have hlt : C < data.length := by
          by_contra hge
          rw [List.drop_eq_nil_of_le (by omega)] at hs
          cases hs
        have hend' : s.child.eof = false := by simpa using hend
        refine ⟨C + 1, E, { hf with
          consumed_le := hlt
          stream := (drop_take_succ_of_drop hs).1
          stdin_le := by have := hf.stdin_le; rw [hin] at this; simp at this ⊢; omega
          stage := hf.stage.keep hopen rfl rfl
          out_closed := by rw [Child.readByte_exited]; exact hf.out_closed
          err_closed := by rw [Child.readByte_exited]; exact hf.err_closed
          exited := by simp [hx]
          eof_closed := by simp [hend']
          output := ?_
          warnings := ?_ }, ?_⟩
        · have := hf.output
          rw [ho, hend', hs, ← Child.readByte_output s.mode ho x] at this
          simpa [hend', (drop_take_succ_of_drop hs).1] using this
        · have := hf.warnings
          rw [he, hend', hs, ← Child.readByte_warnings he x] at this
          simp only [Child.readByte_eof, hend', hf.mode, (drop_take_succ_of_drop hs).1]
          simpa [Nat.add_assoc] using this
        · simp only [Sys.flow, hin, List.length_cons, Child.readByte_eof, Child.readByte_exited]
          omega
      | nil =>
        -- the subprocess reads the end of its input
        rw [hin] at h
        dsimp only at h
        split at h
        swap
        · cases h
        rename_i hc
        cases h
        have hdrop : data.drop C = [] := by
          rw [hf.stream, hin, hf.stage.toWrite_nil hc]; rfl
        have hend' : s.child.eof = false := by simpa using hend
        refine ⟨C, E, { hf with
          stage := hf.stage.keep hopen rfl rfl
          exited := by simp [Child.readEnd, hx]
          eof_closed := fun _ => hc
          output := ?_
          warnings := ?_ }, ?_⟩
        · have := hf.output
          rw [ho, hend', hdrop] at this
          simpa [Child.readEnd_out] using this
        · have := hf.warnings
          rw [he, hend', hdrop] at this
          simpa [Child.readEnd, hf.mode, Child.readEnd_err] using this
        · simp only [Sys.flow, Child.readEnd, hend', Bool.toNat_true, Bool.toNat_false]
          omega

/-- Every step keeps `Flowing` and raises `Sys.flow`. -/
theorem Flowing.step (hf : Flowing c p data C E s) {a : Party} (h : s.step c p a = some t) :
    ∃ C' E', Flowing c p data C' E' t ∧ s.flow C E < t.flow C' E' := by
  cases a with
  | worker => exact hf.workerStep h
  | child => exact hf.childStep h

/-- While the subprocess has room for its answers, its input holds a byte or is closed, and it
has not exited, it can move: its warnings fit standard error, and with nothing to write it
reads, or exits. -/
theorem Flowing.child_moves (herr : (p.warnings [] data).length ≤ c.stderr)
    (hf : Flowing c p data C E s) (hx : s.child.exited = false)
    (hroom : s.child.out ≠ [] → s.stdout.buf.length < c.stdout)
    (hin : s.stdin.buf ≠ [] ∨ s.stdin.closed = true) : Gearhulk.childStep c p s ≠ none :=
  childStep_ne_none hx hroom (fun he => by have := hf.warnings; have := List.length_pos.2 he; omega)
    hin

/-- While the handler writes, the subprocess has not read the end of its input, so it runs. -/
theorem Flowing.running_of_write (hf : Flowing c p data C E s) {r : Bytes}
    (hwk : s.worker = .write r) : s.child.exited = false := by
  have hst := hf.stage
  simp only [EofStage, hwk] at hst
  cases hx : s.child.exited
  · rfl
  · have := hf.eof_closed (hf.exited hx).2.2
    rw [hst] at this
    cases this

/-- A `Flowing` state where neither party moves is the handler returned, with no error and with
the command's whole output, when the subprocess has room for its answers in an empty standard
output, and can move whenever the handler waits on a full standard input. -/
theorem Flowing.done_of_stuck (herr : (p.warnings [] data).length ≤ c.stderr)
    (hf : Flowing c p data C E s) (hroom : s.child.out ≠ [] → s.stdout.buf = [] → 0 < c.stdout)
    (hwrite : ∀ b r, s.worker = .write (b :: r) → c.stdin ≤ s.stdin.buf.length →
      Gearhulk.childStep c p s ≠ none)
    (hs : ∀ a, s.step c p a = none) : s.worker = .done (p.output [] data) none := by
  have hwn : Gearhulk.workerStep c s = none := hs .worker
  have hcn : Gearhulk.childStep c p s = none := hs .child
  have hst := hf.stage
  cases hwk : s.worker with
  | write r =>
    cases r with
    | cons b r =>
      by_cases hlt : s.stdin.buf.length < c.stdin
      · rw [workerStep_write hwk, if_pos hlt] at hwn
        cases hwn
      · exact absurd hcn (hwrite b r hwk (by omega))
    | nil => rw [workerStep_close hwk hf.mode] at hwn; cases hwn
  | readOut out =>
    simp only [EofStage, hwk] at hst
    rw [workerStep_readOut hwk] at hwn
    cases hb : s.stdout.buf with
    | cons b bs => rw [hb] at hwn; cases hwn
    | nil =>
      rw [hb] at hwn
      cases hcl : s.stdout.closed
      · refine absurd hcn (hf.child_moves herr (hf.out_closed.symm.trans hcl) ?_ (.inr hst))
        intro ho
        rw [hb]
        exact hroom ho hb
      · dsimp only at hwn
        rw [if_pos hcl] at hwn
        cases hwn
  | readErr out err =>
    simp only [EofStage, hwk] at hst
    have hx : s.child.exited = true := hf.out_closed.symm.trans hst.1
    rw [workerStep_readErr hwk] at hwn
    cases hb : s.stderr.buf with
    | cons b bs => rw [hb] at hwn; cases hwn
    | nil =>
      rw [hb] at hwn
      dsimp only at hwn
      rw [if_pos (hf.err_closed.trans hx)] at hwn
      cases hwn
  | wait out err =>
    simp only [EofStage, hwk] at hst
    rw [workerStep_wait hwk, if_pos (hf.out_closed.symm.trans hst.1)] at hwn
    cases hwn
  | readLine n cur acc => simp [EofStage, hwk] at hst
  | done r e =>
    cases e with
    | some e => simp [EofStage, hwk] at hst
    | none =>
      simp only [EofStage, hwk] at hst
      obtain ⟨ho, -, hend⟩ := hf.exited (hf.out_closed.symm.trans hst.1)
      have := hf.output
      rw [hwk, hst.2, ho, hend] at this
      simpa [Phase.outRead] using this

/-- An output that fits standard output leaves room for every answer the subprocess has to
write. -/
theorem Flowing.stdout_room (hout : (p.output [] data).length ≤ c.stdout)
    (hf : Flowing c p data C E s) (ho : s.child.out ≠ []) : s.stdout.buf.length < c.stdout := by
  have h := congrArg List.length hf.output
  simp only [List.length_append] at h
  have := List.length_pos.2 ho
  omega

end Flowing

/-- What the handler has yet to write fits beside what standard input holds. -/
def FitsStdin (c : Caps) (s : Sys) : Prop := s.stdin.buf.length + s.worker.toWrite.length ≤ c.stdin

/-- A step of the subprocess leaves the handler alone and takes from standard input at most. -/
theorem childStep_frame {c : Caps} {p : LineCommand} {s t : Sys}
    (h : Gearhulk.childStep c p s = some t) :
    t.worker = s.worker ∧ t.stdin.buf.length ≤ s.stdin.buf.length := by
  unfold Gearhulk.childStep at h
  split at h <;> (repeat' split at h) <;> cases h <;> simp_all

/-- Every step keeps `FitsStdin`: the handler moves bytes from what it has to write into standard
input, and the subprocess takes them out. -/
theorem FitsStdin.step {c : Caps} {p : LineCommand} {s t : Sys} {a : Party} (hf : FitsStdin c s)
    (h : s.step c p a = some t) : FitsStdin c t := by
  unfold FitsStdin at hf ⊢
  cases a with
  | worker => rw [(workerStep_frame h).2.2.2.1]; exact hf
  | child =>
    obtain ⟨hw, hle⟩ := childStep_frame h
    rw [hw]
    omega

/-- In EOF mode, for every command whose warnings over the payload fit standard error, every
payload that fits standard input, every capacity of standard output with room for a byte, and
every schedule of steps of the handler and the subprocess: the schedule is at most as long as
a bound fixed by the payload and what the command writes, and when neither party can move at
its end, the handler has returned with no error and with exactly what the command writes to
standard output over the payload. -/
theorem processJobWithNewSubprocess_returns_output (c : Caps) (hout : 0 < c.stdout)
    (p : LineCommand) (data : Bytes) (hin : data.length ≤ c.stdin)
    (herr : (p.warnings [] data).length ≤ c.stderr) :
    ∀ as t, Sys.run c p (processJobWithNewSubprocess data) as = some t →
      as.length ≤ 2 * data.length + c.stdin + 2 * (p.output [] data).length +
          2 * (p.warnings [] data).length + 6 ∧
        ((∀ a, t.step c p a = none) → t.worker = .done (p.output [] data) none) := by
  intro as t h
  obtain ⟨hlen, i, hf, hfit⟩ := run_length_le_of_measure
    (I := fun (i : Nat × Nat) s => Flowing c p data i.1 i.2 s ∧ FitsStdin c s)
    (fun i s => Sys.flow s i.1 i.2) _
    (fun hf h => let ⟨C', E', hf', hlt⟩ := hf.1.step h; ⟨(C', E'), ⟨hf', hf.2.step h⟩, hlt⟩)
    (fun hf => hf.1.flow_le) as (i := (0, 0))
    ⟨flowing_start, by simpa [FitsStdin, processJobWithNewSubprocess, Phase.toWrite] using hin⟩ h
  refine ⟨(Nat.le_add_right _ _).trans hlen, hf.done_of_stuck herr (fun _ _ => hout) ?_⟩
  -- the handler never waits on a full standard input
  intro b r hwk hge
  unfold FitsStdin at hfit
  rw [hwk] at hfit
  simp only [Phase.toWrite, List.length_cons] at hfit
  omega

/-- The line `a` through `cat`, with two bytes of standard input, one of standard output and
none of standard error. -/
theorem processJobWithNewSubprocess_returns_output_cat :
    0 < (⟨2, 1, 0⟩ : Caps).stdout ∧
      ∀ as t, Sys.run ⟨2, 1, 0⟩ LineCommand.cat (processJobWithNewSubprocess [97, 10]) as = some t →
        as.length ≤ 2 * [97, 10].length + (⟨2, 1, 0⟩ : Caps).stdin +
            2 * (LineCommand.cat.output [] [97, 10]).length +
            2 * (LineCommand.cat.warnings [] [97, 10]).length + 6 ∧
          ((∀ a, t.step ⟨2, 1, 0⟩ LineCommand.cat a = none) →
            t.worker = .done (LineCommand.cat.output [] [97, 10]) none) :=
  ⟨by decide, processJobWithNewSubprocess_returns_output ⟨2, 1, 0⟩ (by decide) LineCommand.cat
    [97, 10] (by decide) (by decide)⟩


/-- In EOF mode, for every command whose output over the payload fits standard output and whose
warnings fit standard error, every payload of any length, every standard input with room for a
byte, and every schedule of steps of the handler and the subprocess: the schedule is at most as
long as a bound fixed by the payload and what the command writes, and when neither party can
move at its end, the handler has returned with no error and with exactly the command's output.
The subprocess never waits on a full pipe, so it reads standard input as the handler fills it. -/
theorem processJobWithNewSubprocess_returns_output_of_output_fits (c : Caps) (hin : 0 < c.stdin)
    (p : LineCommand) (data : Bytes) (hout : (p.output [] data).length ≤ c.stdout)
    (herr : (p.warnings [] data).length ≤ c.stderr) :
    ∀ as t, Sys.run c p (processJobWithNewSubprocess data) as = some t →
      as.length ≤ 2 * data.length + c.stdin + 2 * (p.output [] data).length +
          2 * (p.warnings [] data).length + 6 ∧
        ((∀ a, t.step c p a = none) → t.worker = .done (p.output [] data) none) := by
  intro as t h
  obtain ⟨hlen, i, hf⟩ := run_length_le_of_measure
    (I := fun (i : Nat × Nat) => Flowing c p data i.1 i.2)
    (fun i s => Sys.flow s i.1 i.2) _
    (fun hf h => let ⟨C', E', hf', hlt⟩ := hf.step h; ⟨(C', E'), hf', hlt⟩)
    (fun hf => hf.flow_le) as (i := (0, 0)) flowing_start h
  refine ⟨(Nat.le_add_right _ _).trans hlen,
    hf.done_of_stuck herr (fun ho hb => by have := hf.stdout_room hout ho; omega) ?_⟩
  -- on a full standard input the subprocess reads, its answers having room
  intro b r hwk hge
  refine hf.child_moves herr (hf.running_of_write hwk) (hf.stdout_room hout) (.inl ?_)
  intro hb
  rw [hb, List.length_nil] at hge
  omega

/-- Three lines through `cat`, with one byte of standard input and six of standard output. -/
theorem processJobWithNewSubprocess_returns_output_of_output_fits_cat :
    (LineCommand.cat.output [] [97, 10, 98, 10, 99, 10]).length ≤ (⟨1, 6, 0⟩ : Caps).stdout ∧
      ∀ as t, Sys.run ⟨1, 6, 0⟩ LineCommand.cat
          (processJobWithNewSubprocess [97, 10, 98, 10, 99, 10]) as = some t →
        as.length ≤ 2 * [97, 10, 98, 10, 99, 10].length + (⟨1, 6, 0⟩ : Caps).stdin +
            2 * (LineCommand.cat.output [] [97, 10, 98, 10, 99, 10]).length +
            2 * (LineCommand.cat.warnings [] [97, 10, 98, 10, 99, 10]).length + 6 ∧
          ((∀ a, t.step ⟨1, 6, 0⟩ LineCommand.cat a = none) →
            t.worker = .done (LineCommand.cat.output [] [97, 10, 98, 10, 99, 10]) none) :=
  ⟨by decide, processJobWithNewSubprocess_returns_output_of_output_fits ⟨1, 6, 0⟩ (by decide)
    LineCommand.cat [97, 10, 98, 10, 99, 10] (by decide) (by decide)⟩

end Gearhulk
