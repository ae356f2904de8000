import Gearhulk.Cmd.Scanner
import Gearhulk.Worker.Exec

/-!
# `runClient`: what the client prints for a job

For each token, `runClient` submits a job with `c.Do` and a response handler, then waits on
the handler's channel or a timer. The handler sends a result for `WORK_COMPLETE` (the data),
`WORK_FAIL` (`job failed`) and `WORK_EXCEPTION` (`job exception:` and the data), and nothing
for the other responses. The job server forwards to the client each packet the worker writes
for the job, with its type and data (the spec's completion contract).

Time is an input: the handler's result reaches the channel `delay` after the wait begins, and
`time.After(timeout)` fires at `timeout`. When both are ready at one instant Go's `select`
picks either; the model takes the timer, and the theorems leave that instant out.

## Main definitions

- `responseHandler`, `awaitResult` — the handler `runClient` gives `c.Do`, and the `select`
- `forwarded`, `writtenFor` — what reaches the client of a job that a worker runs with `exec`
- `runClient` — the whole command on the reads of standard input

## Main results

- `runClient_prints_job_outcome` — what the client prints for a job, for every worker and
  every outcome of the job's function: the function's error never reaches the client.
-/

namespace Gearhulk

/-- `jobResult`: what the response handler sends for a job. -/
structure JobResult where
  data : Bytes
  err : Option GoError
  deriving DecidableEq

/-- The response handler `runClient` passes to `c.Do`: the result it sends for a response, by
the response's type; nothing for the other types. -/
def responseHandler (dataType : PT) (data : Bytes) : Option JobResult :=
  if dataType = PT.workComplete then some ⟨data, none⟩
  else if dataType = PT.workFail then some ⟨[], some ⟨"job failed", []⟩⟩
  else if dataType = PT.workException then some ⟨[], some ⟨"job exception: %s", [data]⟩⟩
  else none

/-- What `runClient` prints for one job. -/
inductive Printed
  /-- `fmt.Println(string(result.data))`, on standard output. -/
  | stdout (data : Bytes)
  /-- `Job error: %v`, on standard error. -/
  | jobError (err : GoError)
  /-- `Job timeout after %v`, on standard error. -/
  | timeout
  deriving DecidableEq

/-- The `select` after `c.Do`: the first result the handler sends for the responses forwarded
to the client, in order, when it comes `delay` after the wait begins, before
`time.After(timeout)` fires; the timer otherwise. -/
def awaitResult (timeout delay : Nat) (responses : List (PT × Bytes)) : Printed :=
  if timeout ≤ delay then .timeout
  else match responses.findSome? fun r => responseHandler r.1 r.2 with
    | some ⟨_, some e⟩ => .jobError e
    | some ⟨d, none⟩ => .stdout d
    | none => .timeout

/-- `runClient` with the `--timeout` flag `timeout` on the reads `chunks` of standard input,
`respond t` being, for the job whose data is the token `t`, when its result reaches the
channel and the responses forwarded for it: what it prints for each job in turn, and
`scanner.Err()` after the loop (`io.EOF` is no error). -/
def runClient (delim : Bytes) (timeout : Nat) (chunks : List Bytes) (fuel : Nat)
    (respond : Bytes → Nat × List (PT × Bytes)) : Option (List Printed × Option ScanErr) :=
  (runClientTokens delim chunks fuel).map fun r =>
    (r.1.map fun t => awaitResult timeout (respond t).1 (respond t).2, r.2)

/-- What the job server forwards to the client of a job: each packet the worker wrote for it,
with its type and data. -/
def forwarded (written : List OutPack) : List (PT × Bytes) :=
  written.map fun p => (p.dataType, p.data)

/-- The packets a worker writes for a job it runs with `exec`; none when `exec` never
returns. -/
def writtenFor (w : Worker) (inpack : InPack) : List OutPack :=
  match exec w inpack with
  | some r => r.written
  | none => []

section Client

variable {w : Worker} {inpack : InPack} {timeout delay : Nat}

@[simp] theorem forwarded_nil : forwarded [] = [] := rfl

@[simp] theorem awaitResult_nil : awaitResult timeout delay [] = .timeout := by
  unfold awaitResult; split_ifs <;> rfl

theorem awaitResult_late (h : timeout ≤ delay) (responses : List (PT × Bytes)) :
    awaitResult timeout delay responses = .timeout := if_pos h

/-- The client's view, before its timer, of the one packet `exec` writes for a result. -/
theorem awaitResult_result (h : delay < timeout) (d : Bytes) (err : Option GoError)
    (handle : Bytes) :
    awaitResult timeout delay
        (forwarded [{ dataType := resultType ⟨d, err⟩, data := d, handle := handle }]) =
      match err with
      | none => .stdout d
      | some _ => .jobError (if d = [] then ⟨"job failed", []⟩
          else ⟨"job exception: %s", [d]⟩) := by
  have h₂ : PT.workException ≠ PT.workComplete := by decide
  have h₃ : PT.workException ≠ PT.workFail := by decide
  rw [awaitResult, if_neg (Nat.not_le.2 h)]
  rcases err with _ | e
  · rfl
  · by_cases hd : d = []
    · subst hd; rfl
    · simp [forwarded, resultType, responseHandler, hd, h₂, h₃, List.findSome?]

/-- What the client prints for a job, for every worker state, every outcome of the job's
function and every time its result takes, the job server forwarding what the worker writes.
A result that comes after `--timeout` prints the timeout. A worker that is shutting down,
not running, or without the function writes nothing and the client times out. Otherwise a
nil error prints the data; an error prints `job failed` for empty data and the data as the
exception otherwise, never the error itself. A function past its timeout prints `job
failed`, and without a timeout a panic or a call that never returns leaves the client to
time out. -/
theorem runClient_prints_job_outcome (w : Worker) (inpack : InPack) (hd : delay ≠ timeout) :
    awaitResult timeout delay (forwarded (writtenFor w inpack)) =
      if timeout < delay ∨ w.shuttingDown ∨ ¬ w.running then .timeout
      else match w.funcs.lookup inpack.fn with
        | none => .timeout
        | some f =>
          match f.f inpack with
          | .returns d none => .stdout d
          | .returns d (some _) =>
            .jobError (if d = [] then ⟨"job failed", []⟩ else ⟨"job exception: %s", [d]⟩)
          | .panics _ => if f.timeout = 0 then .timeout else .jobError ⟨"job failed", []⟩
          | .overruns => if f.timeout = 0 then .timeout else .jobError ⟨"job failed", []⟩ := by
  by_cases hlate : timeout < delay
  · rw [if_pos (Or.inl hlate), awaitResult_late hlate.le]
  have hon : delay < timeout := by omega
  simp only [hlate, false_or]
  by_cases hsd : w.shuttingDown = true
  · simp [writtenFor, exec, hsd]
  cases hf : w.funcs.lookup inpack.fn with
  | none => simp [writtenFor, exec, hsd, hf]
  | some f =>
    rw [Bool.not_eq_true] at hsd
    have he := exec_of_lookup hsd hf
    rcases ho : f.f inpack with ⟨d, _ | e⟩ | v | _ <;> by_cases ht : f.timeout = 0 <;>
      by_cases hrun : w.running = true <;>
      simp [writtenFor, he, callJobFunc, execTimeout, ho, ht, hrun, hsd, awaitResult_result hon]

/-- A job of a worker that is not running, its result timed before the timer. -/
theorem runClient_prints_job_outcome_new :
    (5 : Nat) ≠ 30 ∧ awaitResult 30 5 (forwarded (writtenFor Worker.new {})) = .timeout :=
  ⟨by decide, runClient_prints_job_outcome Worker.new {} (by decide)⟩

end Client

end Gearhulk
