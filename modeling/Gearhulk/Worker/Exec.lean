import Gearhulk.Worker.Registration

/-!
# Running a job: `exec` and `execTimeout`

`exec` looks the job's function up, calls it, and writes its result to the agent the job came
from: `WORK_COMPLETE` for a nil error, otherwise `WORK_FAIL` for empty data and
`WORK_EXCEPTION` for data. A function with a timeout runs through `execTimeout`, whose
goroutine swallows a panic with its own `recover()`, so that the caller sees the timer fire;
a function without one is called directly, and its panic unwinds to the `recover()` in
`exec`'s deferred function, which turns it into `exec`'s error before any packet is written.

## Main definitions

- `Result`, `execTimeout`, `recovered`, `callJobFunc` — the call and what comes back
- `resultType`, `exec` — the packet written for a result, and `exec` run to its end

## Main results

- `exec_outcome` — the packets `exec` writes and the error it returns, for every outcome of
  the function, with and without a timeout.
-/

namespace Gearhulk

/-- `result`: what a job's function gave back. -/
structure Result where
  data : Bytes
  err : Option GoError

/-- `execTimeout`, for a timeout above zero. The function runs in a goroutine whose deferred
`recover()` swallows a panic; the `select` takes the function's result if it is sent before
the timer fires, and `ErrTimeOut` with no data otherwise, also after a panic, since the
goroutine then never sends. -/
def execTimeout (f : JobFunc) (job : InPack) : Result :=
  match f job with
  | .returns d e => ⟨d, e⟩
  | .panics _ => ⟨[], some errTimeOut⟩
  | .overruns => ⟨[], some errTimeOut⟩

/-- `recover()` in `exec`'s deferred function: an `error` becomes `exec`'s error as it is, any
other value `ErrUnknown`. -/
def recovered : PanicValue → GoError
  | .error e => e
  | .other => errUnknown

/-- The call `exec` makes: `f.f(inpack)` for timeout `0`, `execTimeout` otherwise. It gives the
result, or the panic that reaches `exec`'s deferred `recover()`; `none` when it never
returns. -/
def callJobFunc (f : JobFuncEntry) (inpack : InPack) : Option (Except PanicValue Result) :=
  if f.timeout = 0 then
    match f.f inpack with
    | .returns d e => some (.ok ⟨d, e⟩)
    | .panics v => some (.error v)
    | .overruns => none
  else some (.ok (execTimeout f.f inpack))

/-- The type of the packet `exec` writes for a result. -/
def resultType (r : Result) : PT :=
  match r.err with
  | none => PT.workComplete
  | some _ => if r.data.length = 0 then PT.workFail else PT.workException

/-- What an `exec` that returns leaves behind: the packets it wrote to the job's agent, and
its error. -/
structure ExecResult where
  written : List OutPack
  err : Option GoError
  deriving DecidableEq

/-- `exec` on a job, run to its end: nothing once the worker is shutting down; an error for a
function that is not registered; otherwise the call's result, written as one packet to the
job's agent while `running`, or the recovered panic as the error. `none`: `exec` never
returns. The `activeJobs` count and the `limit` slot it takes are `Concurrency`'s. -/
def exec (w : Worker) (inpack : InPack) : Option ExecResult :=
  if w.shuttingDown then some ⟨[], none⟩
  else match w.funcs.lookup inpack.fn with
    | none => some ⟨[], some ⟨"The function does not exist: %s", [inpack.fn]⟩⟩
    | some f => (callJobFunc f inpack).map fun
      | .error v => ⟨[], some (recovered v)⟩
      | .ok r =>
        if w.running then
          ⟨[{ dataType := resultType r, data := r.data, handle := inpack.handle }], r.err⟩
        else ⟨[], none⟩

section Exec

variable {w : Worker} {inpack : InPack} {f : JobFuncEntry}

/-- `exec` once it has found the job's function: the call, and its answer. -/
theorem exec_of_lookup (hsd : w.shuttingDown = false) (hf : w.funcs.lookup inpack.fn = some f) :
    exec w inpack = (callJobFunc f inpack).map fun
      | .error v => ⟨[], some (recovered v)⟩
      | .ok r =>
        if w.running then
          ⟨[{ dataType := resultType r, data := r.data, handle := inpack.handle }], r.err⟩
        else ⟨[], none⟩ := by
  simp [exec, hsd, hf]

/-- What `exec` does with each outcome of a registered function while the worker runs and is
not shutting down. A returned nil error gives one `WORK_COMPLETE`; a returned error one
`WORK_FAIL` for empty data and one `WORK_EXCEPTION` otherwise; running past a timeout one
`WORK_FAIL` with `ErrTimeOut`. A panic gives `WORK_FAIL` with `ErrTimeOut` when the function
has a timeout, and without one no packet at all: the recovered value is `exec`'s error. -/
theorem exec_outcome (hrun : w.running = true) (hsd : w.shuttingDown = false)
    (hf : w.funcs.lookup inpack.fn = some f) :
    (∀ d, f.f inpack = .returns d none → exec w inpack =
      some ⟨[{ dataType := PT.workComplete, data := d, handle := inpack.handle }], none⟩) ∧
    (∀ d e, f.f inpack = .returns d (some e) → exec w inpack =
      some ⟨[{ dataType := if d = [] then PT.workFail else PT.workException,
                data := d, handle := inpack.handle }], some e⟩) ∧
    (∀ v, f.f inpack = .panics v → exec w inpack =
      if f.timeout = 0 then some ⟨[], some (recovered v)⟩
      else some ⟨[{ dataType := PT.workFail, handle := inpack.handle }], some errTimeOut⟩) ∧
    (f.f inpack = .overruns → exec w inpack =
      if f.timeout = 0 then none
      else some ⟨[{ dataType := PT.workFail, handle := inpack.handle }], some errTimeOut⟩) := by
  rw [exec_of_lookup hsd hf]
  refine ⟨fun d hd => ?_, fun d e hd => ?_, fun v hv => ?_, fun hv => ?_⟩ <;>
    by_cases ht : f.timeout = 0 <;>
    simp [callJobFunc, execTimeout, resultType, ht, hrun, *]

/-- A function that returns data with an error, registered without a timeout. -/
theorem exec_outcome_exception :
    exec { funcs := (∅ : JobFuncs).insert [102] ⟨fun _ => .returns [1] (some errUnknown), 0⟩,
           agents := [[]], running := true, isReady := true, once := true }
      { dataType := PT.jobAssign, handle := [104], fn := [102] } =
      some ⟨[{ dataType := PT.workException, data := [1], handle := [104] }], some errUnknown⟩ := by
  simpa using (@exec_outcome
    { funcs := (∅ : JobFuncs).insert [102] ⟨fun _ => .returns [1] (some errUnknown), 0⟩,
      agents := [[]], running := true, isReady := true, once := true }
    { dataType := PT.jobAssign, handle := [104], fn := [102] }
    ⟨fun _ => .returns [1] (some errUnknown), 0⟩ rfl rfl rfl).2.1 [1] errUnknown rfl

/-- A function that panics, on a running worker: without a timeout `exec` writes no packet and
returns `ErrUnknown`; with a timeout of one second it writes `WORK_FAIL`. -/
theorem exec_panic_not_exception :
    exec { funcs := (∅ : JobFuncs).insert [102] ⟨fun _ => .panics .other, 0⟩,
           agents := [[]], running := true, isReady := true, once := true }
      { dataType := PT.jobAssign, handle := [104], fn := [102] } = some ⟨[], some errUnknown⟩ ∧
    exec { funcs := (∅ : JobFuncs).insert [102] ⟨fun _ => .panics .other, 1⟩,
           agents := [[]], running := true, isReady := true, once := true }
      { dataType := PT.jobAssign, handle := [104], fn := [102] } =
      some ⟨[{ dataType := PT.workFail, handle := [104] }], some errTimeOut⟩ :=
  ⟨rfl, rfl⟩

end Exec

end Gearhulk
