import Gearhulk.Cmd.Subprocess

/-!
# The handler and its subprocess over bounded pipes

While a job runs, the handler and the subprocess it talks to run side by side, joined by
pipes of bounded capacity. A write to a full pipe blocks until the other end reads; a read of
an empty pipe blocks until the other end writes, or closes its end.

`processJobWithNewSubprocess` (EOF mode) writes the whole payload to standard input and closes
it, then reads standard output to its end, then standard error, then waits for the
subprocess. `processJobWithPersistentSubprocess` writes the payload and the newline it lacks,
then reads a line of standard output for each input line it does not skip. In both, nothing
is read before everything is written.

The subprocess is a line filter `p`: it reads its input a byte at a time, and for each line
writes `p.answer line` and a newline to standard output and `p.warn line` to standard error,
all of it before it reads on. At the end of its input it answers a last unterminated line,
closes its output and exits with status `0`.

`Sys.step` is one step of either party, `none` when that party is blocked or has finished, and
`Sys.Reaches` any interleaving of such steps.

## Main definitions

- `OsPipe`, `Caps`, `LineCommand`, `Child` — a pipe, the three capacities, the command and
  the subprocess running it
- `Phase`, `Sys`, `workerStep`, `childStep`, `Sys.step`, `Sys.Reaches` — a job in progress
- `processJobWithNewSubprocess`, `persistentSubprocessJob` — the two kinds of job at their start
- `WorkerBlocked`, `ChildBlocked`, `Deadlock`

## Main results

- `reaches_deadlock_of_measure` — under an invariant where every step raises a bounded measure
  and every state where neither party moves is a deadlock, every run goes on to a deadlock.
- `Writing.deadlock_of_stuck` — while the handler writes a payload that the pipes and the
  subprocess cannot hold, a state where neither party moves is a deadlock.
- `subprocess_deadlocks` — in both modes, with any capacities and any line filter, a payload
  that has more newlines than standard output holds bytes, followed by more bytes than
  standard input holds, leads every run to a reachable deadlock.
- `Calm.not_deadlock` — no state of a job whose bytes fit standard input, on a command that
  writes nothing to standard error, is a deadlock.
- `flooded_stderr_deadlocks` — in EOF mode, a command whose warnings for the first line are
  longer than standard error holds leads every run to a reachable deadlock, whatever the size
  of the payload.

## Design notes

The reads of the handler and of the subprocess take one byte at a time. A read blocks on an
empty pipe however many bytes it asks for, so this changes when a party blocks only through
what the subprocess holds; the bounds below count that explicitly. The `bufio.Reader` of
persistent mode reads ahead of the handler here; `Gearhulk.Cmd.PersistentRuns` drops what it
took past a job's last line when the job ends.
-/

namespace Gearhulk

-- ════════════════════════════════════════════════════════════════════════
-- Pipes and parties
-- ════════════════════════════════════════════════════════════════════════

/-- A pipe: the bytes written to it and not yet read, and whether its write end is closed. -/
structure OsPipe where
  buf : Bytes := []
  closed : Bool := false
  deriving DecidableEq, Repr

/-- The capacities of the subprocess's standard input, output and error pipes. -/
structure Caps where
  stdin : Nat
  stdout : Nat
  stderr : Nat
  deriving DecidableEq, Repr

/-- The worker's command as a line filter: for a line it reads, the line it writes to standard
output (a newline follows it), and what it writes to standard error. -/
structure LineCommand where
  answer : Bytes → Bytes
  warn : Bytes → Bytes

/-- `cat`: each line back, nothing on standard error. -/
def LineCommand.cat : LineCommand := ⟨id, fun _ => []⟩

/-- The subprocess: the line it is reading, what it has yet to write to standard output and to
standard error, whether it has read the end of its input, and whether it has exited. -/
structure Child where
  line : Bytes := []
  out : Bytes := []
  err : Bytes := []
  eof : Bool := false
  exited : Bool := false
  deriving DecidableEq, Repr

/-- What the handler does once the job is written: EOF mode closes standard input and reads
the output to its end; persistent mode reads `lines` lines. -/
inductive Mode
  | eof
  | persistent (lines : Nat)
  deriving DecidableEq, Repr

/-- Where the handler is in the job. -/
inductive Phase
  /-- `stdin.Write`: the bytes it has yet to write. -/
  | write (rest : Bytes)
  /-- `io.ReadAll(stdout)`: what it has read. -/
  | readOut (out : Bytes)
  /-- `io.ReadAll(stderr)`, once standard output is read. -/
  | readErr (out err : Bytes)
  /-- `cmd.Wait()`. -/
  | wait (out err : Bytes)
  /-- The loop of `reader.ReadString('\n')`: the lines it has yet to read, the line so far, and
  the lines read. -/
  | readLine (left : Nat) (cur : Bytes) (acc : List Bytes)
  /-- Returned: the result and the error. -/
  | done (result : Bytes) (err : Option GoError)
  deriving DecidableEq, Repr

/-- A job in progress: the handler, the three pipes and the subprocess. -/
structure Sys where
  mode : Mode
  worker : Phase
  stdin : OsPipe := {}
  stdout : OsPipe := {}
  stderr : OsPipe := {}
  child : Child := {}
  deriving DecidableEq, Repr

/-- `processJobWithNewSubprocess(command, data)` once `cmd.Start()` has returned: the handler
is to write `data`, and the subprocess has read nothing. -/
def processJobWithNewSubprocess (data : Bytes) : Sys := { mode := .eof, worker := .write data }

/-- `processJobWithPersistentSubprocess(cmd, stdin, stdout, data)` on a subprocess that has
answered every job before it, with the test that skips an input line: the payload and, by a
second `Write`, the newline it lacks go to standard input in order, and a line is read for
each input line not skipped. -/
def persistentSubprocessJob (skip : Bytes → Bool) (data : Bytes) : Sys :=
  { mode := .persistent (readCount skip data), worker := .write (withNewline data) }

-- ════════════════════════════════════════════════════════════════════════
-- One step of each party
-- ════════════════════════════════════════════════════════════════════════

/-- One step of the handler with capacities `c`: write a byte to a standard input with room,
close it (EOF mode), read a byte, see the end of a pipe, or return. `none`: it is blocked, or
it has returned. The subprocess exits with status `0`, so `cmd.Wait()` returns nil. -/
def workerStep (c : Caps) (s : Sys) : Option Sys :=
  match s.worker with
  | .write (b :: rest) =>
    if s.stdin.buf.length < c.stdin then
      some { s with worker := .write rest, stdin := { s.stdin with buf := s.stdin.buf ++ [b] } }
    else none
  | .write [] =>
    match s.mode with
    | .eof => some { s with worker := .readOut [], stdin := { s.stdin with closed := true } }
    | .persistent n => some { s with worker := .readLine n [] [] }
  | .readOut out =>
    match s.stdout.buf with
    | b :: bs =>
      some { s with worker := .readOut (out ++ [b]), stdout := { s.stdout with buf := bs } }
    | [] => if s.stdout.closed then some { s with worker := .readErr out [] } else none
  | .readErr out err =>
    match s.stderr.buf with
    | b :: bs =>
      some { s with worker := .readErr out (err ++ [b]), stderr := { s.stderr with buf := bs } }
    | [] => if s.stderr.closed then some { s with worker := .wait out err } else none
  | .wait out _ => if s.child.exited then some { s with worker := .done out none } else none
  | .readLine 0 _ acc => some { s with worker := .done (List.intercalate [newline] acc) none }
  | .readLine (n + 1) cur acc =>
    match s.stdout.buf with
    | b :: bs =>
      some { s with
        worker := if b = newline then .readLine n [] (acc ++ [cur])
          else .readLine (n + 1) (cur ++ [b]) acc
        stdout := { s.stdout with buf := bs } }
    | [] =>
      if s.stdout.closed then
        some { s with worker := .done [] (some ⟨"failed to read from stdout: %v", []⟩) }
      else none
  | .done _ _ => none

/-- What the subprocess writes to standard error for a line: `warn line` in EOF mode; in
persistent mode its standard error is the null device, which takes everything at once. -/
def errFor (md : Mode) (p : LineCommand) (line : Bytes) : Bytes :=
  if md = .eof then p.warn line else []

/-- The subprocess reads the byte `b`: a newline ends the line and queues its answer. -/
def Child.readByte (ch : Child) (p : LineCommand) (md : Mode) (b : UInt8) : Child :=
  if b = newline then
    { ch with line := [], out := p.answer ch.line ++ [newline], err := errFor md p ch.line }
  else { ch with line := ch.line ++ [b] }

/-- The subprocess reads the end of its input: a last unterminated line is answered without a
newline. -/
def Child.readEnd (ch : Child) (p : LineCommand) (md : Mode) : Child :=
  { ch with
    eof := true
    line := []
    out := if ch.line = [] then [] else p.answer ch.line
    err := if ch.line = [] then [] else errFor md p ch.line }

/-- One step of the subprocess running `p`: write a byte of its output to standard output, or
of its errors to standard error, when the pipe has room; with nothing to write, read a byte of
standard input, or its end; after the end, close its output and exit. `none`: it is blocked,
or it has exited. -/
def childStep (c : Caps) (p : LineCommand) (s : Sys) : Option Sys :=
  match s.child.out, s.child.err with
  | b :: bs, _ =>
    if s.stdout.buf.length < c.stdout then
      some { s with
        child := { s.child with out := bs }
        stdout := { s.stdout with buf := s.stdout.buf ++ [b] } }
    else none
  | [], b :: bs =>
    if s.stderr.buf.length < c.stderr then
      some { s with
        child := { s.child with err := bs }
        stderr := { s.stderr with buf := s.stderr.buf ++ [b] } }
    else none
  | [], [] =>
    if s.child.exited then none
    else if s.child.eof then
      some { s with
        child := { s.child with exited := true }
        stdout := { s.stdout with closed := true }
        stderr := { s.stderr with closed := true } }
    else
      match s.stdin.buf with
      | b :: bs =>
        some { s with child := s.child.readByte p s.mode b, stdin := { s.stdin with buf := bs } }
      | [] => if s.stdin.closed then some { s with child := s.child.readEnd p s.mode } else none

/-- The two parties of a job. -/
inductive Party
  | worker
  | child
  deriving DecidableEq, Repr

/-- One step of one party. -/
def Sys.step (c : Caps) (p : LineCommand) (s : Sys) : Party → Option Sys
  | .worker => workerStep c s
  | .child => childStep c p s

/-- `t` is reached from `s` by steps of the two parties, in any interleaving. -/
inductive Sys.Reaches (c : Caps) (p : LineCommand) : Sys → Sys → Prop
  | refl (s : Sys) : Sys.Reaches c p s s
  | step {s t u : Sys} (a : Party) : s.step c p a = some t → Sys.Reaches c p t u →
      Sys.Reaches c p s u

/-- The handler is blocked writing to a full standard input, or reading an empty pipe whose
write end is open. -/
def WorkerBlocked (c : Caps) (s : Sys) : Prop :=
  match s.worker with
  | .write (_ :: _) => c.stdin ≤ s.stdin.buf.length
  | .readOut _ => s.stdout.buf = [] ∧ s.stdout.closed = false
  | .readLine (_ + 1) _ _ => s.stdout.buf = [] ∧ s.stdout.closed = false
  | .readErr _ _ => s.stderr.buf = [] ∧ s.stderr.closed = false
  | _ => False

/-- The subprocess is blocked writing to a full standard output or standard error. -/
def ChildBlocked (c : Caps) (s : Sys) : Prop :=
  (s.child.out ≠ [] ∧ c.stdout ≤ s.stdout.buf.length) ∨
    (s.child.out = [] ∧ s.child.err ≠ [] ∧ c.stderr ≤ s.stderr.buf.length)

/-- A deadlock: the handler blocked on a pipe while the subprocess is blocked writing. -/
def Deadlock (c : Caps) (s : Sys) : Prop := WorkerBlocked c s ∧ ChildBlocked c s

section Steps

variable {c : Caps} {p : LineCommand} {s : Sys}

theorem workerStep_write {b : UInt8} {rest : Bytes} (h : s.worker = .write (b :: rest)) :
    workerStep c s =
      if s.stdin.buf.length < c.stdin then
        some { s with worker := .write rest, stdin := { s.stdin with buf := s.stdin.buf ++ [b] } }
      else none := by
  unfold workerStep; rw [h]

theorem workerStep_close (h : s.worker = .write []) (hm : s.mode = .eof) :
    workerStep c s = some { s with worker := .readOut [], stdin := { s.stdin with closed := true } } := by
  unfold workerStep; rw [h, hm]

theorem workerStep_readOut {out : Bytes} (h : s.worker = .readOut out) :
    workerStep c s =
      match s.stdout.buf with
      | b :: bs =>
        some { s with worker := .readOut (out ++ [b]), stdout := { s.stdout with buf := bs } }
      | [] => if s.stdout.closed then some { s with worker := .readErr out [] } else none := by
  unfold workerStep; rw [h]

theorem workerStep_readErr {out err : Bytes} (h : s.worker = .readErr out err) :
    workerStep c s =
      match s.stderr.buf with
      | b :: bs =>
        some { s with worker := .readErr out (err ++ [b]), stderr := { s.stderr with buf := bs } }
      | [] => if s.stderr.closed then some { s with worker := .wait out err } else none := by
  unfold workerStep; rw [h]

theorem workerStep_wait {out err : Bytes} (h : s.worker = .wait out err) :
    workerStep c s = if s.child.exited then some { s with worker := .done out none } else none := by
  unfold workerStep; rw [h]

theorem workerStep_persist {n : Nat} (h : s.worker = .write []) (hm : s.mode = .persistent n) :
    workerStep c s = some { s with worker := .readLine n [] [] } := by
  unfold workerStep; rw [h, hm]

theorem workerStep_readLine_zero {cur : Bytes} {acc : List Bytes}
    (h : s.worker = .readLine 0 cur acc) :
    workerStep c s = some { s with worker := .done (List.intercalate [newline] acc) none } := by
  unfold workerStep; rw [h]

theorem workerStep_readLine {k : Nat} {cur : Bytes} {acc : List Bytes}
    (h : s.worker = .readLine (k + 1) cur acc) :
    workerStep c s =
      match s.stdout.buf with
      | b :: bs =>
        some { s with
          worker := if b = newline then .readLine k [] (acc ++ [cur])
            else .readLine (k + 1) (cur ++ [b]) acc
          stdout := { s.stdout with buf := bs } }
      | [] =>
        if s.stdout.closed then
          some { s with worker := .done [] (some ⟨"failed to read from stdout: %v", []⟩) }
        else none := by
  unfold workerStep; rw [h]

theorem childStep_out {b : UInt8} {bs : Bytes} (h : s.child.out = b :: bs) :
    childStep c p s =
      if s.stdout.buf.length < c.stdout then
        some { s with
          child := { s.child with out := bs }
          stdout := { s.stdout with buf := s.stdout.buf ++ [b] } }
      else none := by
  unfold childStep; rw [h]

theorem childStep_err {b : UInt8} {bs : Bytes} (ho : s.child.out = []) (he : s.child.err = b :: bs) :
    childStep c p s =
      if s.stderr.buf.length < c.stderr then
        some { s with
          child := { s.child with err := bs }
          stderr := { s.stderr with buf := s.stderr.buf ++ [b] } }
      else none := by
  unfold childStep; rw [ho, he]

/-- With nothing to write, the subprocess exits after the end of its input, and reads before
it. -/
theorem childStep_idle (ho : s.child.out = []) (he : s.child.err = []) :
    childStep c p s =
      if s.child.exited then none
      else if s.child.eof then
        some { s with
          child := { s.child with exited := true }
          stdout := { s.stdout with closed := true }
          stderr := { s.stderr with closed := true } }
      else
        match s.stdin.buf with
        | b :: bs =>
          some { s with child := s.child.readByte p s.mode b, stdin := { s.stdin with buf := bs } }
        | [] => if s.stdin.closed then some { s with child := s.child.readEnd p s.mode } else none := by
  unfold childStep; rw [ho, he]

/-- With nothing to write and its input open, the subprocess reads the next byte, or blocks on
an empty standard input. -/
theorem childStep_read (ho : s.child.out = []) (he : s.child.err = [])
    (hx : s.child.exited = false) (hend : s.child.eof = false) (hc : s.stdin.closed = false) :
    childStep c p s =
      match s.stdin.buf with
      | b :: bs =>
        some { s with child := s.child.readByte p s.mode b, stdin := { s.stdin with buf := bs } }
      | [] => none := by
  rw [childStep_idle ho he]
  simp only [hx, hend, hc, Bool.false_eq_true, if_false]

@[simp] theorem Child.readByte_eof (ch : Child) (p : LineCommand) (md : Mode) (b : UInt8) :
    (ch.readByte p md b).eof = ch.eof := by
  unfold Child.readByte; split <;> rfl

@[simp] theorem Child.readByte_exited (ch : Child) (p : LineCommand) (md : Mode) (b : UInt8) :
    (ch.readByte p md b).exited = ch.exited := by
  unfold Child.readByte; split <;> rfl

/-- A newline read leaves at least its own newline to write. -/
theorem Child.count_le_readByte_out (ch : Child) (p : LineCommand) (md : Mode) (b : UInt8) :
    [b].count newline ≤ (ch.readByte p md b).out.length := by
  unfold Child.readByte
  split
  · next h => subst h; simp
  · next h => simp [List.count_singleton', Ne.symm h]

/-- A subprocess with something to write that cannot move is blocked writing. -/
theorem childBlocked_of_stuck (hch : childStep c p s = none)
    (h : s.child.out ≠ [] ∨ s.child.err ≠ []) : ChildBlocked c s := by
  cases ho : s.child.out with
  | cons o os =>
    rw [childStep_out ho] at hch
    exact .inl ⟨by simp [ho], by by_contra hlt; rw [if_pos (by omega)] at hch; cases hch⟩
  | nil =>
    obtain ⟨e, es, he⟩ := List.exists_cons_of_ne_nil (h.resolve_left (by simp [ho]))
    rw [childStep_err ho he] at hch
    exact .inr ⟨ho, by simp [he], by by_contra hlt; rw [if_pos (by omega)] at hch; cases hch⟩

/-- A running subprocess moves when what it has to write has room, and its standard input holds
a byte or is closed. -/
theorem childStep_ne_none (hx : s.child.exited = false)
    (hout : s.child.out ≠ [] → s.stdout.buf.length < c.stdout)
    (herr : s.child.err ≠ [] → s.stderr.buf.length < c.stderr)
    (hin : s.stdin.buf ≠ [] ∨ s.stdin.closed = true) : childStep c p s ≠ none := by
  intro h
  cases ho : s.child.out with
  | cons o os => rw [childStep_out ho, if_pos (hout (by simp [ho]))] at h; cases h
  | nil =>
    cases he : s.child.err with
    | cons e es => rw [childStep_err ho he, if_pos (herr (by simp [he]))] at h; cases h
    | nil =>
      rw [childStep_idle ho he, if_neg (by simp [hx])] at h
      split at h
      · cases h
      cases hb : s.stdin.buf with
      | cons x xs => rw [hb] at h; cases h
      | nil =>
        simp only [hb, ne_eq, not_true_eq_false, false_or] at hin
        simp [hb, hin] at h

end Steps

-- ════════════════════════════════════════════════════════════════════════
-- Runs that must reach a deadlock
-- ════════════════════════════════════════════════════════════════════════

/-- Under an invariant `I C`, indexed by a count `C`, every step raises a measure `m` bounded by
`B`, and a state where neither party moves is a deadlock: every run from a state with the
invariant goes on to a deadlock. -/
theorem reaches_deadlock_of_measure {c : Caps} {p : LineCommand} {I : Nat → Sys → Prop}
    (m : Nat → Sys → Nat) (B : Nat)
    (hstep : ∀ {C s a t}, I C s → s.step c p a = some t → ∃ C', I C' t ∧ m C s < m C' t)
    (hle : ∀ {C s}, I C s → m C s ≤ B)
    (hstuck : ∀ {C s}, I C s → (∀ a, s.step c p a = none) → Deadlock c s)
    {C : Nat} {s : Sys} (hi : I C s) : ∃ t, Sys.Reaches c p s t ∧ Deadlock c t := by
  by_cases hs : ∀ a, s.step c p a = none
  · exact ⟨s, .refl s, hstuck hi hs⟩
  push_neg at hs
  obtain ⟨a, ha⟩ := hs
  obtain ⟨t, ht⟩ := Option.ne_none_iff_exists'.1 ha
  obtain ⟨C', hi', hlt⟩ := hstep hi ht
  have := hle hi'
  obtain ⟨u, hu, hd⟩ := reaches_deadlock_of_measure m B hstep hle hstuck hi'
  exact ⟨u, .step a ht hu, hd⟩
termination_by B - m C s

-- ════════════════════════════════════════════════════════════════════════
-- While the handler writes
-- ════════════════════════════════════════════════════════════════════════

/-- Reading the byte after a prefix of a stream. -/
theorem drop_take_succ_of_drop {l t : Bytes} {n : Nat} {x : UInt8} (h : l.drop n = x :: t) :
    l.drop (n + 1) = t ∧ l.take (n + 1) = l.take n ++ [x] := by
  have hx : l[n]? = some x := by rw [← List.head?_drop, h]; rfl
  exact ⟨by rw [← List.tail_drop, h]; rfl, by rw [List.take_succ, hx]; rfl⟩

/-- What holds while the handler writes `str`, of which the subprocess has read `C` bytes:
standard input holds what lies between the two; the subprocess has not read the end of its
input; no pipe is over its capacity; every newline read is answered by a byte the subprocess
still holds or has put in standard output, which the handler does not read yet; and the
subprocess read its last byte only when standard output held an answer to every newline
before it. -/
structure Writing (c : Caps) (str : Bytes) (C : Nat) (s : Sys) : Prop where
  stream : ∃ rest, s.worker = .write rest ∧ str.drop C = s.stdin.buf ++ rest
  stdin_open : s.stdin.closed = false
  not_eof : s.child.eof = false
  not_exited : s.child.exited = false
  stdin_le : s.stdin.buf.length ≤ c.stdin
  stdout_le : s.stdout.buf.length ≤ c.stdout
  stderr_le : s.stderr.buf.length ≤ c.stderr
  answered : (str.take C).count newline ≤ s.stdout.buf.length + s.child.out.length
  read_le : C = 0 ∨ (str.take (C - 1)).count newline ≤ c.stdout

/-- The bytes moved while the handler writes, the subprocess having read `C`: each step of
either party moves one. -/
def Sys.moved (s : Sys) (C : Nat) : Nat :=
  2 * C + s.stdin.buf.length + s.stdout.buf.length + s.stderr.buf.length

section Writing

variable {c : Caps} {p : LineCommand} {str : Bytes} {C m : Nat} {s : Sys}

theorem writing_start (md : Mode) : Writing c str 0 { mode := md, worker := .write str } :=
  ⟨⟨str, rfl, by simp⟩, rfl, rfl, rfl, Nat.zero_le _, Nat.zero_le _, Nat.zero_le _, by simp,
    Or.inl rfl⟩

/-- The subprocess never reads past the prefix of `str` that holds more newlines than standard
output holds bytes: it would need an answer to each of them in the pipe. -/
theorem Writing.consumed_le (hm : c.stdout + 1 ≤ (str.take m).count newline)
    (hw : Writing c str C s) : C ≤ m := by
  rcases hw.read_le with h | h
  · omega
  · by_contra hlt
    have := (List.take_prefix_take_left str (show m ≤ C - 1 by omega)).count_le newline
    omega

/-- The handler has bytes left to write: the pipes and the subprocess cannot take them all. -/
theorem Writing.writing (hm : c.stdout + 1 ≤ (str.take m).count newline)
    (hlen : m + c.stdin < str.length) (hw : Writing c str C s) :
    ∃ b rest, s.worker = .write (b :: rest) ∧ str.drop C = s.stdin.buf ++ b :: rest := by
  obtain ⟨rest, hwk, hs⟩ := hw.stream
  match rest, hwk, hs with
  | b :: rest, hwk, hs => exact ⟨b, rest, hwk, hs⟩
  | [], _, hs =>
    have hl := congrArg List.length hs
    rw [List.length_drop, List.append_nil] at hl
    have := hw.consumed_le hm
    have := hw.stdin_le
    omega

theorem Writing.moved_le (hm : c.stdout + 1 ≤ (str.take m).count newline)
    (hlen : m + c.stdin < str.length) (hw : Writing c str C s) :
    s.moved C ≤ 2 * str.length + c.stdout + c.stderr := by
  obtain ⟨rest, -, hs⟩ := hw.stream
  have hl := congrArg List.length hs
  rw [List.length_drop, List.length_append] at hl
  have := hw.consumed_le hm
  have := hw.stdout_le
  have := hw.stderr_le
  unfold Sys.moved
  omega

/-- One step while the handler writes keeps `Writing` and moves one byte. -/
theorem Writing.step (hm : c.stdout + 1 ≤ (str.take m).count newline)
    (hlen : m + c.stdin < str.length) (hw : Writing c str C s) {a : Party} {t : Sys}
    (h : s.step c p a = some t) : ∃ C', Writing c str C' t ∧ t.moved C' = s.moved C + 1 := by
  obtain ⟨b, rest, hwk, hs⟩ := hw.writing hm hlen
  cases a with
  | worker =>
    -- the handler writes the byte `b`
    rw [Sys.step, workerStep_write hwk] at h
    split_ifs at h with hroom
    cases h
    refine ⟨C, { hw with
      stream := ⟨rest, rfl, by rw [hs]; simp⟩
      stdin_le := by simp only [List.length_append, List.length_singleton]; omega }, ?_⟩
    simp only [Sys.moved, List.length_append, List.length_singleton]; omega
  | child =>
    rw [Sys.step] at h
    cases ho : s.child.out with
    | cons o os =>
      -- the subprocess writes a byte of its answer
      rw [childStep_out ho] at h
      split_ifs at h with hroom
      cases h
      have ha := hw.answered
      rw [ho, List.length_cons] at ha
      refine ⟨C, { hw with
        stdout_le := by simp only [List.length_append, List.length_singleton]; omega
        answered := by simp only [List.length_append, List.length_singleton]; omega }, ?_⟩
      simp only [Sys.moved, List.length_append, List.length_singleton]; omega
    | nil =>
      cases he : s.child.err with
      | cons e es =>
        -- the subprocess writes a byte to standard error
        rw [childStep_err ho he] at h
        split_ifs at h with hroom
        cases h
        refine ⟨C, { hw with
          stderr_le := by simp only [List.length_append, List.length_singleton]; omega }, ?_⟩
        simp only [Sys.moved, List.length_append, List.length_singleton]; omega
      | nil =>
        -- the subprocess reads a byte
        rw [childStep_read ho he hw.not_exited hw.not_eof hw.stdin_open] at h
        cases hin : s.stdin.buf with
        | nil => rw [hin] at h; cases h
        | cons x xs =>
          rw [hin] at h hs
          cases h
          obtain ⟨hdrop, htake⟩ := drop_take_succ_of_drop hs
          have ha := hw.answered
          rw [ho] at ha
          have hx := s.child.count_le_readByte_out p s.mode x
          have hout := hw.stdout_le
          refine ⟨C + 1, { hw with
            stream := ⟨b :: rest, hwk, hdrop⟩
            not_eof := by simp [hw.not_eof]
            not_exited := by simp [hw.not_exited]
            stdin_le := by have := hw.stdin_le; rw [hin] at this; simp at this ⊢; omega
            answered := ?_
            read_le := .inr (by simpa using ha.trans hout) }, ?_⟩
          · rw [htake, List.count_append]
            simp only [List.length_nil, Nat.add_zero] at ha ⊢
            omega
          · simp only [Sys.moved, hin, List.length_cons]; omega

/-- While the handler writes, a state where neither party moves is a deadlock: the handler
waits on a full standard input, so the subprocess, which reads whenever it has nothing to
write, is blocked writing. -/
theorem Writing.deadlock_of_stuck (hm : c.stdout + 1 ≤ (str.take m).count newline)
    (hlen : m + c.stdin < str.length) (hc : 0 < c.stdin) (hw : Writing c str C s)
    (hs : ∀ a, s.step c p a = none) : Deadlock c s := by
  obtain ⟨b, rest, hwk, -⟩ := hw.writing hm hlen
  have hwn : workerStep c s = none := hs .worker
  have hch : childStep c p s = none := hs .child
  have hfull : c.stdin ≤ s.stdin.buf.length := by
    by_contra hlt
    rw [workerStep_write hwk, if_pos (by omega)] at hwn
    cases hwn
  refine ⟨by simp only [WorkerBlocked, hwk]; exact hfull, childBlocked_of_stuck hch ?_⟩
  -- with nothing to write, the subprocess would read the full standard input
  by_contra hidle
  obtain ⟨ho, he⟩ : s.child.out = [] ∧ s.child.err = [] := by simpa [not_or] using hidle
  obtain ⟨x, xs, hin⟩ := List.exists_cons_of_ne_nil (l := s.stdin.buf)
    (fun h => by rw [h, List.length_nil] at hfull; omega)
  rw [childStep_read ho he hw.not_exited hw.not_eof hw.stdin_open, hin] at hch
  cases hch

theorem Writing.of_reaches (hm : c.stdout + 1 ≤ (str.take m).count newline)
    (hlen : m + c.stdin < str.length) {s t : Sys} (h : Sys.Reaches c p s t)
    (hw : Writing c str C s) : ∃ C', Writing c str C' t := by
  induction h generalizing C with
  | refl => exact ⟨C, hw⟩
  | step a hst _ ih =>
    obtain ⟨C', hw', -⟩ := hw.step hm hlen hst
    exact ih hw'

/-- Whatever the handler does once written, a payload the pipes and the subprocess cannot hold
leads every run from the start to a state from which a deadlock is reached. -/
theorem write_phase_deadlocks (hm : c.stdout + 1 ≤ (str.take m).count newline)
    (hlen : m + c.stdin < str.length) (hc : 0 < c.stdin) (md : Mode) {s : Sys}
    (hs : Sys.Reaches c p { mode := md, worker := .write str } s) :
    ∃ t, Sys.Reaches c p s t ∧ Deadlock c t := by
  obtain ⟨C, hw⟩ := (writing_start md).of_reaches hm hlen hs
  exact reaches_deadlock_of_measure (I := Writing c str) (fun C s => s.moved C) _
    (fun hw h => let ⟨C', hw', hmv⟩ := hw.step hm hlen h
      ⟨C', hw', Nat.lt_of_lt_of_eq (Nat.lt_succ_self _) hmv.symm⟩)
    (fun hw => hw.moved_le hm hlen) (fun hw hs => hw.deadlock_of_stuck hm hlen hc hs) hw

end Writing

/-- In EOF mode and in persistent mode, for every capacity of the three pipes, every line
filter and every way the two parties interleave: when some prefix of the payload holds more
newlines than standard output holds bytes, and more bytes than standard input holds follow
it, every state a run reaches leads on to a deadlock, the handler blocked writing to a full
standard input while the subprocess is blocked writing to a full standard output or error. -/
theorem subprocess_deadlocks (c : Caps) (hc : 0 < c.stdin) (p : LineCommand)
    (skip : Bytes → Bool) {data : Bytes} (m : Nat)
    (hm : c.stdout + 1 ≤ (data.take m).count newline) (hlen : m + c.stdin < data.length) :
    (∀ s, Sys.Reaches c p (processJobWithNewSubprocess data) s →
      ∃ t, Sys.Reaches c p s t ∧ Deadlock c t) ∧
    (∀ s, Sys.Reaches c p (persistentSubprocessJob skip data) s →
      ∃ t, Sys.Reaches c p s t ∧ Deadlock c t) := by
  obtain ⟨x, hx⟩ : ∃ x, withNewline data = data ++ x := by
    unfold withNewline; split
    · exact ⟨[], (List.append_nil _).symm⟩
    · exact ⟨_, rfl⟩
  refine ⟨fun s hs => write_phase_deadlocks hm hlen hc .eof hs,
    fun s hs => @write_phase_deadlocks c p (withNewline data) m ?_ ?_ hc _ s hs⟩
  · rw [hx, List.take_append_of_le_length (by omega)]; exact hm
  · rw [hx, List.length_append]; omega

/-- Three lines through `cat`, with pipes of one byte. -/
theorem subprocess_deadlocks_cat :
    (∀ s, Sys.Reaches ⟨1, 1, 1⟩ LineCommand.cat
        (processJobWithNewSubprocess [97, 10, 98, 10, 99, 10]) s →
      ∃ t, Sys.Reaches ⟨1, 1, 1⟩ LineCommand.cat s t ∧ Deadlock ⟨1, 1, 1⟩ t) ∧
    (∀ s, Sys.Reaches ⟨1, 1, 1⟩ LineCommand.cat
        (persistentSubprocessJob (fun l => l.isEmpty) [97, 10, 98, 10, 99, 10]) s →
      ∃ t, Sys.Reaches ⟨1, 1, 1⟩ LineCommand.cat s t ∧ Deadlock ⟨1, 1, 1⟩ t) :=
  subprocess_deadlocks ⟨1, 1, 1⟩ (by decide) LineCommand.cat (fun l => l.isEmpty) 4 (by decide)
    (by decide)

-- ════════════════════════════════════════════════════════════════════════
-- A payload that fits standard input
-- ════════════════════════════════════════════════════════════════════════

/-- The bytes the handler has yet to write. -/
def Phase.toWrite : Phase → Bytes
  | .write rest => rest
  | _ => []

/-- The handler has read standard output to its end. -/
def Phase.pastOut : Phase → Bool
  | .readErr _ _ | .wait _ _ => true
  | _ => false

section Calm

variable {c : Caps} {p : LineCommand} {md : Mode} {s t : Sys}

/-- A step of the handler leaves the subprocess and standard output's write end alone, moves
bytes only from what it has to write into standard input, and reaches the end of standard
output only when that end is closed. -/
theorem workerStep_frame (h : workerStep c s = some t) :
    t.mode = s.mode ∧ t.child = s.child ∧ t.stdout.closed = s.stdout.closed ∧
      t.stdin.buf.length + t.worker.toWrite.length =
        s.stdin.buf.length + s.worker.toWrite.length ∧
      (t.worker.pastOut = true → s.worker.pastOut = true ∨ s.stdout.closed = true) := by
  unfold workerStep at h
  split at h <;> (repeat' split at h) <;> cases h <;> simp_all [Phase.toWrite, Phase.pastOut]
  omega

theorem Child.readByte_err_nil (hq : ∀ l, errFor md p l = []) {ch : Child} (he : ch.err = [])
    (b : UInt8) : (ch.readByte p md b).err = [] := by
  unfold Child.readByte; split <;> simp [hq, he]

theorem Child.readEnd_err_nil (hq : ∀ l, errFor md p l = []) (ch : Child) :
    (ch.readEnd p md).err = [] := by
  unfold Child.readEnd; split <;> simp [hq]

/-- What holds in every run of a job whose payload fits standard input, on a command that
writes nothing to standard error: what is left to write fits in standard input beside what it
holds; the subprocess has nothing for standard error; standard output is closed only by the
subprocess's exit, with all of its answers written; and the handler reads past standard
output only once it is closed. -/
structure Calm (c : Caps) (md : Mode) (s : Sys) : Prop where
  mode : s.mode = md
  fits : s.stdin.buf.length + s.worker.toWrite.length ≤ c.stdin
  err_nil : s.child.err = []
  closed_out : s.stdout.closed = true → s.child.exited = true ∧ s.child.out = []
  past_out : s.worker.pastOut = true → s.stdout.closed = true

theorem calm_start {str : Bytes} (h : str.length ≤ c.stdin) :
    Calm c md { mode := md, worker := .write str } :=
  ⟨rfl, by simpa [Phase.toWrite] using h, rfl, nofun, nofun⟩

/-- While the subprocess runs, or has answers to write, standard output is open. -/
theorem Calm.stdout_open (hi : Calm c md s) (h : s.child.exited = false ∨ s.child.out ≠ []) :
    s.stdout.closed = false := by
  cases hc : s.stdout.closed
  · rfl
  · obtain ⟨hx, ho⟩ := hi.closed_out hc
    simp [hx, ho] at h

/-- Every step keeps `Calm`. -/
theorem Calm.step (hq : ∀ l, errFor md p l = []) (hi : Calm c md s) {a : Party}
    (h : s.step c p a = some t) : Calm c md t := by
  cases a with
  | worker =>
    obtain ⟨hmd, hch, hcl, hlen, hpast⟩ := workerStep_frame h
    exact ⟨hmd ▸ hi.mode, hlen ▸ hi.fits, hch ▸ hi.err_nil, by rw [hcl, hch]; exact hi.closed_out,
      fun ht => hcl ▸ (hpast ht).elim hi.past_out id⟩
  | child =>
    rw [Sys.step] at h
    cases ho : s.child.out with
    | cons o os =>
      -- the subprocess writes a byte of its answer: it has not exited
      rw [childStep_out ho] at h
      split_ifs at h
      cases h
      have hopen := hi.stdout_open (.inr (by simp [ho]))
      exact ⟨hi.mode, hi.fits, hi.err_nil, by simp [hopen], hi.past_out⟩
    | nil =>
      rw [childStep_idle ho hi.err_nil] at h
      split at h
      · cases h
      rename_i hx
      have hopen := hi.stdout_open (.inl (by simpa using hx))
      split at h
      · -- the subprocess exits, its answers written
        cases h
        exact ⟨hi.mode, hi.fits, hi.err_nil, fun _ => ⟨rfl, ho⟩, fun _ => rfl⟩
      -- the subprocess reads a byte, or the end of its input
      have hmd := hi.mode
      split at h
      · next b bs hin =>
        cases h
        have := hi.fits
        rw [hin, List.length_cons] at this
        exact ⟨hmd, by simp only; omega, Child.readByte_err_nil (hmd ▸ hq) hi.err_nil b,
          by simp [hopen], hi.past_out⟩
      · split at h
        · cases h
          exact ⟨hmd, hi.fits, Child.readEnd_err_nil (hmd ▸ hq) _, by simp [hopen], hi.past_out⟩
        · cases h

theorem Calm.of_reaches (hq : ∀ l, errFor md p l = []) (h : Sys.Reaches c p s t)
    (hi : Calm c md s) : Calm c md t := by
  induction h with
  | refl => exact hi
  | step a hst _ ih => exact ih (hi.step hq hst)

/-- No `Calm` state is a deadlock: the handler blocks writing only on a standard input without
room, reading standard output only when it is empty, and reading standard error only after the
subprocess has written all of its answers. -/
theorem Calm.not_deadlock (hout : 0 < c.stdout) (hi : Calm c md s) : ¬ Deadlock c s := by
  rintro ⟨hw, hb⟩
  have hout' : s.child.out ≠ [] ∧ c.stdout ≤ s.stdout.buf.length := by
    rcases hb with hb | ⟨-, he, -⟩
    · exact hb
    · exact absurd hi.err_nil he
  unfold WorkerBlocked at hw
  have hfits := hi.fits
  have hpast := hi.past_out
  split at hw
  · next hwk => rw [hwk] at hfits; simp [Phase.toWrite] at hfits; omega
  · rw [hw.1] at hout'; simp at hout'; omega
  · rw [hw.1] at hout'; simp at hout'; omega
  · next hwk =>
    rw [hwk] at hpast
    exact hout'.1 (hi.closed_out (hpast rfl)).2
  · exact hw

end Calm

-- ════════════════════════════════════════════════════════════════════════
-- A command that floods standard error
-- ════════════════════════════════════════════════════════════════════════

/-- What the handler has read of standard output. -/
def Phase.readSoFar : Phase → Bytes
  | .readOut out => out
  | _ => []

/-- The subprocess has read `C` bytes of the first line `l`, not the end of its input, and has
written nothing. -/
structure FirstLine (l : Bytes) (C : Nat) (s : Sys) : Prop where
  le : C ≤ l.length
  line : s.child.line = l.take C
  not_eof : s.child.eof = false
  out : s.child.out = []
  err : s.child.err = []
  stdout : s.stdout.buf = []
  stderr : s.stderr.buf = []
  read : s.worker.readSoFar = []

/-- The subprocess has read the first line `l` and what ends it, the first byte of `tail`, a
newline, or the end of its input when `tail` is empty: its answer, with that newline, has been read
by the handler, lies in standard output or is still to write, and its warnings lie in standard
error or are still to write. -/
structure Answered (p : LineCommand) (l tail : Bytes) (C : Nat) (s : Sys) : Prop where
  count : C = l.length + (tail.take 1).length
  out : s.worker.readSoFar ++ s.stdout.buf ++ s.child.out = p.answer l ++ tail.take 1
  err : s.stderr.buf ++ s.child.err = p.warn l

/-- What holds in EOF mode on the payload `l ++ tail`, of which the subprocess has read `C`
bytes, until it has answered the first line `l`: the handler writes, or has closed standard input
and reads standard output; what it has yet to write follows what standard input holds in the
payload; the subprocess has not exited and standard output is open; no pipe is over its capacity;
and the subprocess is within `l`, or has queued its answers to `l`. -/
structure Jam (c : Caps) (p : LineCommand) (l tail : Bytes) (C : Nat) (s : Sys) : Prop where
  mode : s.mode = .eof
  stream : (l ++ tail).drop C = s.stdin.buf ++ s.worker.toWrite
  phase : (∃ r, s.worker = .write r) ∧ s.stdin.closed = false ∨
    (∃ out, s.worker = .readOut out) ∧ s.stdin.closed = true
  not_exited : s.child.exited = false
  stdout_open : s.stdout.closed = false
  stdin_le : s.stdin.buf.length ≤ c.stdin
  stdout_le : s.stdout.buf.length ≤ c.stdout
  stderr_le : s.stderr.buf.length ≤ c.stderr
  first : FirstLine l C s ∨ Answered p l tail C s

/-- The bytes moved in EOF mode, the subprocess having read `C`, the closing of standard input,
and the end of it read: each step of either party raises it. -/
def Sys.progress (s : Sys) (C : Nat) : Nat :=
  2 * C + s.stdin.buf.length + 2 * s.worker.readSoFar.length + s.stdout.buf.length +
    s.stderr.buf.length + s.stdin.closed.toNat + s.child.eof.toNat

section Jam

variable {c : Caps} {p : LineCommand} {l tail : Bytes} {C : Nat} {s : Sys}

/-- Warnings longer than standard error holds are never all written. -/
theorem Answered.err_ne_nil (hw : c.stderr < (p.warn l).length) (ha : Answered p l tail C s)
    (hle : s.stderr.buf.length ≤ c.stderr) : s.child.err ≠ [] := by
  intro he
  have := congrArg List.length ha.err
  rw [he, List.append_nil] at this
  omega

theorem jam_start : Jam c p l tail 0 (processJobWithNewSubprocess (l ++ tail)) :=
  ⟨rfl, rfl, .inl ⟨⟨_, rfl⟩, rfl⟩, rfl, rfl, Nat.zero_le _, Nat.zero_le _, Nat.zero_le _,
    .inl ⟨Nat.zero_le _, rfl, rfl, rfl, rfl, rfl, rfl, rfl⟩⟩

/-- Every step keeps `Jam` and raises `Sys.progress`, when the first line `l` is ended by a
newline, or by the end of a payload with nothing after `l`. -/
theorem Jam.step (hl : newline ∉ l) (htail : (∃ rest, tail = newline :: rest) ∨ tail = [] ∧ l ≠ [])
    (hw : c.stderr < (p.warn l).length) (hj : Jam c p l tail C s) {a : Party} {t : Sys}
    (h : s.step c p a = some t) : ∃ C', Jam c p l tail C' t ∧ s.progress C < t.progress C' := by
  cases a with
  | worker =>
    rw [Sys.step] at h
    rcases hj.phase with ⟨⟨r, hwk⟩, hopen⟩ | ⟨⟨out, hwk⟩, hclosed⟩
    · cases r with
      | cons b r =>
        -- the handler writes the byte `b`
        rw [workerStep_write hwk] at h
        split_ifs at h with hroom
        cases h
        refine ⟨C, { hj with
          stream := by rw [hj.stream, hwk]; simp [Phase.toWrite]
          phase := .inl ⟨⟨r, rfl⟩, hopen⟩
          stdin_le := by simp only [List.length_append, List.length_singleton]; omega
          first := ?_ }, ?_⟩
        · rcases hj.first with hf | ha
          · exact .inl { hf with read := rfl }
          · exact .inr { ha with out := by rw [← ha.out, hwk]; rfl }
        · simp only [Sys.progress, hwk, Phase.readSoFar, List.length_append,
            List.length_singleton]
          omega
      | nil =>
        -- the handler closes standard input
        rw [workerStep_close hwk hj.mode] at h
        cases h
        refine ⟨C, { hj with
          stream := by rw [hj.stream, hwk]; rfl
          phase := .inr ⟨⟨[], rfl⟩, rfl⟩
          first := ?_ }, ?_⟩
        · rcases hj.first with hf | ha
          · exact .inl { hf with read := rfl }
          · exact .inr { ha with out := by rw [← ha.out, hwk]; rfl }
        · simp [Sys.progress, hwk, hopen, Phase.readSoFar]
    · rw [workerStep_readOut hwk] at h
      cases hb : s.stdout.buf with
      | nil => rw [hb] at h; simp [hj.stdout_open] at h
      | cons b bs =>
        -- the handler reads a byte of the answer
        rw [hb] at h
        cases h
        have ha : Answered p l tail C s := hj.first.resolve_left fun hf => by simp [hf.stdout] at hb
        refine ⟨C, { hj with
          stream := by rw [hj.stream, hwk]; rfl
          phase := .inr ⟨⟨_, rfl⟩, hclosed⟩
          stdout_le := by have := hj.stdout_le; rw [hb] at this; simp at this ⊢; omega
          first := .inr ⟨ha.count, by rw [← ha.out, hwk, hb]; simp [Phase.readSoFar], ha.err⟩ },
          ?_⟩
        simp only [Sys.progress, hwk, hb, Phase.readSoFar, List.length_append,
          List.length_singleton, List.length_cons]
        omega
  | child =>
    rw [Sys.step] at h
    cases ho : s.child.out with
    | cons o os =>
      -- the subprocess writes a byte of its answer
      rw [childStep_out ho] at h
      split_ifs at h with hroom
      cases h
      have ha : Answered p l tail C s := hj.first.resolve_left fun hf => by simp [hf.out] at ho
      refine ⟨C, { hj with
        stdout_le := by simp only [List.length_append, List.length_singleton]; omega
        first := .inr ⟨ha.count, by rw [← ha.out, ho]; simp, ha.err⟩ }, ?_⟩
      simp only [Sys.progress, List.length_append, List.length_singleton]
      omega
    | nil =>
      cases he : s.child.err with
      | cons e es =>
        -- the subprocess writes a byte of its warnings
        rw [childStep_err ho he] at h
        split_ifs at h with hroom
        cases h
        have ha : Answered p l tail C s := hj.first.resolve_left fun hf => by simp [hf.err] at he
        refine ⟨C, { hj with
          stderr_le := by simp only [List.length_append, List.length_singleton]; omega
          first := .inr ⟨ha.count, ha.out, by rw [← ha.err, he]; simp⟩ }, ?_⟩
        simp only [Sys.progress, List.length_append, List.length_singleton]
        omega
      | nil =>
        -- with nothing to write, the subprocess is within the first line and reads
        have hf : FirstLine l C s :=
          hj.first.resolve_right fun ha => ha.err_ne_nil hw hj.stderr_le he
        rw [childStep_idle ho he, if_neg (by simp [hj.not_exited]),
          if_neg (by simp [hf.not_eof])] at h
        cases hin : s.stdin.buf with
        | nil =>
          rw [hin] at h
          rcases hj.phase with ⟨-, hopen⟩ | ⟨⟨out, hwk⟩, hclosed⟩
          · simp [hopen] at h
          -- standard input is closed once the payload is written: nothing follows `l`, and the
          -- subprocess reads the end of its input, which ends `l`
          rw [if_pos hclosed] at h
          cases h
          have hlen := congrArg List.length hj.stream
          rw [hin, hwk] at hlen
          simp only [List.length_drop, List.length_append, Phase.toWrite, List.length_nil] at hlen
          have := hf.le
          obtain rfl : tail = [] := List.eq_nil_of_length_eq_zero (by omega)
          have hC : C = l.length := by omega
          have hl' : l ≠ [] := (htail.resolve_left fun ⟨_, h⟩ => by simp at h).2
          refine ⟨C, { hj with first := .inr ⟨by simp [hC], ?_, ?_⟩ }, ?_⟩
          · simp [Child.readEnd, hf.read, hf.stdout, hf.line, hC, hl']
          · simp [Child.readEnd, hf.stderr, hf.line, hC, hl', errFor, hj.mode]
          · simp [Sys.progress, Child.readEnd, hf.not_eof]
        | cons x xs =>
          rw [hin] at h
          cases h
          have hs : (l ++ tail).drop C = x :: (xs ++ s.worker.toWrite) := by
            rw [hj.stream, hin]; rfl
          obtain ⟨hdrop, htake⟩ := drop_take_succ_of_drop hs
          refine ⟨C + 1, ?_, ?_⟩
          · refine { hj with
              stream := hdrop
              not_exited := by simp [hj.not_exited]
              stdin_le := by have := hj.stdin_le; rw [hin] at this; simp at this ⊢; omega
              first := ?_ }
            rcases Nat.lt_or_ge C l.length with hlt | hge
            · -- a byte of `l`, which is not a newline
              rw [List.take_append_of_le_length hlt, List.take_append_of_le_length hf.le] at htake
              have hx : x ≠ newline := fun hx =>
                hl (List.mem_of_mem_take (hx ▸ htake ▸ List.mem_append_right _ (List.mem_singleton_self x)))
              refine .inl ⟨hlt, ?_, ?_, ?_, ?_, hf.stdout, hf.stderr, hf.read⟩ <;>
                simp [Child.readByte, hx, hf.line, hf.not_eof, hf.out, hf.err, htake]
            · -- the newline after `l`
              have hC : C = l.length := le_antisymm hf.le hge
              rw [hC, List.drop_left] at hs
              obtain ⟨rest, rfl⟩ := htail.resolve_right fun ⟨h, _⟩ => by simp [h] at hs
              have hx : x = newline := (List.cons.inj hs).1.symm
              refine .inr ⟨by simp [hC], ?_, ?_⟩ <;>
                simp [Child.readByte, hx, hf.line, hf.read, hf.stdout, hf.stderr, hC, errFor,
                  hj.mode]
          · simp only [Sys.progress, hin, List.length_cons, Child.readByte_eof]
            omega

theorem Jam.of_reaches (hl : newline ∉ l)
    (htail : (∃ rest, tail = newline :: rest) ∨ tail = [] ∧ l ≠ [])
    (hw : c.stderr < (p.warn l).length) {t : Sys} (h : Sys.Reaches c p s t)
    (hj : Jam c p l tail C s) : ∃ C', Jam c p l tail C' t := by
  induction h generalizing C with
  | refl => exact ⟨C, hj⟩
  | step a hst _ ih =>
    obtain ⟨C', hj', -⟩ := hj.step hl htail hw hst
    exact ih hj'

theorem Jam.progress_le (hj : Jam c p l tail C s) :
    s.progress C ≤ 2 * l.length + c.stdin + 2 * (p.answer l).length + c.stderr + 6 := by
  have := s.stdin.closed.toNat_le
  have := s.child.eof.toNat_le
  have := hj.stdin_le
  rcases hj.first with hf | ha
  · have := hf.le
    simp only [Sys.progress, hf.read, hf.stdout, hf.stderr, List.length_nil]
    omega
  · have hout := congrArg List.length ha.out
    have : (tail.take 1).length ≤ 1 := by simp
    simp only [List.length_append] at hout
    have := hj.stderr_le
    simp only [Sys.progress, ha.count]
    omega

/-- A `Jam` state where neither party moves is a deadlock: the handler waits on a full standard
input or an empty standard output, and the subprocess on a full standard output or error. -/
theorem Jam.deadlock_of_stuck (hc : 0 < c.stdin) (hw : c.stderr < (p.warn l).length)
    (hj : Jam c p l tail C s) (hs : ∀ a, s.step c p a = none) : Deadlock c s := by
  have hwk : workerStep c s = none := hs .worker
  have hch : childStep c p s = none := hs .child
  have hwb : WorkerBlocked c s := by
    rcases hj.phase with ⟨⟨r, hw'⟩, -⟩ | ⟨⟨out, hw'⟩, -⟩
    · cases r with
      | cons b r =>
        simp only [WorkerBlocked, hw']
        by_contra hlt
        rw [workerStep_write hw', if_pos (by omega)] at hwk
        cases hwk
      | nil => rw [workerStep_close hw' hj.mode] at hwk; cases hwk
    · simp only [WorkerBlocked, hw']
      cases hb : s.stdout.buf with
      | nil => exact ⟨rfl, hj.stdout_open⟩
      | cons b bs => rw [workerStep_readOut hw', hb] at hwk; cases hwk
  refine ⟨hwb, childBlocked_of_stuck hch ?_⟩
  -- within the first line the subprocess reads whenever standard input holds a byte or is closed,
  -- and the handler writes whenever standard input is empty and open
  by_contra hidle
  obtain ⟨ho, he⟩ : s.child.out = [] ∧ s.child.err = [] := by simpa [not_or] using hidle
  have hf : FirstLine l C s :=
    hj.first.resolve_right fun ha => ha.err_ne_nil hw hj.stderr_le he
  rw [childStep_idle ho he, if_neg (by simp [hj.not_exited]),
    if_neg (by simp [hf.not_eof])] at hch
  cases hin : s.stdin.buf with
  | cons x xs => rw [hin] at hch; cases hch
  | nil =>
    rcases hj.phase with ⟨⟨r, hw'⟩, -⟩ | ⟨-, hclosed⟩
    · cases r with
      | cons b r => simp only [WorkerBlocked, hw', hin, List.length_nil] at hwb; omega
      | nil => rw [workerStep_close hw' hj.mode] at hwk; cases hwk
    · rw [hin] at hch
      simp [hclosed] at hch

/-- In EOF mode, a first line `l` whose warnings are longer than standard error holds, ended by a
newline or by the end of the payload, leads every run to a deadlock. -/
theorem jam_deadlocks (tail : Bytes) (hc : 0 < c.stdin) (hl : newline ∉ l)
    (htail : (∃ rest, tail = newline :: rest) ∨ tail = [] ∧ l ≠ [])
    (hw : c.stderr < (p.warn l).length) :
    ∀ s, Sys.Reaches c p (processJobWithNewSubprocess (l ++ tail)) s →
      ∃ t, Sys.Reaches c p s t ∧ Deadlock c t := by
  intro s hs
  obtain ⟨C, hj⟩ := jam_start.of_reaches hl htail hw hs
  exact reaches_deadlock_of_measure (I := Jam c p l tail) (fun C s => s.progress C) _
    (fun hj h => hj.step hl htail hw h) Jam.progress_le
    (fun hj hs => hj.deadlock_of_stuck hc hw hs) hj

end Jam

/-- In EOF mode, for every capacity of the three pipes with room in standard input, every line
filter and every way the two parties interleave: when the command's warnings for the first
line of the payload are longer than standard error holds, every state a run reaches leads on
to a deadlock, whether a newline ends that line or the payload ends with it. The handler reads
standard error only once standard output is closed, and the subprocess, blocked writing its
warnings, never closes it. -/
theorem flooded_stderr_deadlocks (c : Caps) (hc : 0 < c.stdin) (p : LineCommand) {l : Bytes}
    (rest : Bytes) (hl : newline ∉ l) (hw : c.stderr < (p.warn l).length) :
    (∀ s, Sys.Reaches c p (processJobWithNewSubprocess (l ++ newline :: rest)) s →
      ∃ t, Sys.Reaches c p s t ∧ Deadlock c t) ∧
    (l ≠ [] → ∀ s, Sys.Reaches c p (processJobWithNewSubprocess l) s →
      ∃ t, Sys.Reaches c p s t ∧ Deadlock c t) :=
  ⟨jam_deadlocks _ hc hl (.inl ⟨rest, rfl⟩) hw, fun hne => by
    simpa using jam_deadlocks [] hc hl (.inr ⟨rfl, hne⟩) hw⟩

/-- The line `a` through a command that answers it and warns twice, with one byte of standard
error, with and without a newline after it. -/
theorem flooded_stderr_deadlocks_warn_twice :
    0 < (⟨4, 4, 1⟩ : Caps).stdin ∧ newline ∉ ([97] : Bytes) ∧
    (⟨4, 4, 1⟩ : Caps).stderr < ([33, 33] : Bytes).length ∧
      (∀ s, Sys.Reaches ⟨4, 4, 1⟩ ⟨id, fun _ => [33, 33]⟩
          (processJobWithNewSubprocess ([97] ++ newline :: [])) s →
        ∃ t, Sys.Reaches ⟨4, 4, 1⟩ ⟨id, fun _ => [33, 33]⟩ s t ∧ Deadlock ⟨4, 4, 1⟩ t) ∧
      (([97] : Bytes) ≠ [] → ∀ s, Sys.Reaches ⟨4, 4, 1⟩ ⟨id, fun _ => [33, 33]⟩
          (processJobWithNewSubprocess [97]) s →
        ∃ t, Sys.Reaches ⟨4, 4, 1⟩ ⟨id, fun _ => [33, 33]⟩ s t ∧ Deadlock ⟨4, 4, 1⟩ t) :=
  ⟨by decide, by decide, by decide,
    flooded_stderr_deadlocks ⟨4, 4, 1⟩ (by decide) ⟨id, fun _ => [33, 33]⟩ (l := [97]) []
      (by decide) (by decide)⟩

end Gearhulk
