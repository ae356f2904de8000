import Gearhulk.Worker.Payload
import Mathlib.Data.List.AList

/-!
# Registering functions with the job servers

A job server learns which functions a worker can run from the packets the worker sends it,
and from nothing else. `Ready` registers every function with every server once per worker
lifetime (`worker.once`); after that, `AddFunc` and `RemoveFunc` announce a change only
while `worker.running` is set, and `running` is set by `Work`, after `Ready`.

This module models the five calls that change `funcs` or announce it (`AddFunc`,
`RemoveFunc`, `Reset`, `Ready`, `Work`), and the three other calls that write to the agents
or close them (`Echo`, `SetId`, `Close`), as steps of the worker's state, each agent kept as
the list of packets written to it, and reads each list back as a server does (`replay`).

## Main definitions

- `JobFunc`, `JobFuncEntry` — a job's function, as the outcome of calling it, and `jobFunc`
- `Worker` — the fields of `Worker` these calls read and write
- `Call`, `Worker.call`, `runCalls` — the calls, one step, and a sequence of steps
- `replay`, `InSync`, `Synced` — what a server believes, and its agreement with `funcs`

## Main results

- `Registered.call` — no call but an unannounced change (`Worker.Unannounced`) breaks the
  agreement of every server with `funcs` after the first registration; `synced_of_announced`
  lifts this to every run from `New`.
- `work_after_unannounced_addFunc` — a function added after `Ready` and before `Work` is
  never announced, and every server misses it while the worker runs.
- `runCalls_running_ready` — every call, unannounced changes included, keeps `running → ready`.
- `close_after_restart_panics` — from every running worker calls reach, `Close` after `Close`
  and `Work` closes `worker.in` twice.

## Design notes

An agent's `Connect` is not among the sources. It is modelled as dialing its server and
writing no packet: the initial registration is `Ready`'s `once`, and re-registration on
reconnect (`reRegisterFuncsForAgent`) belongs to `Reconnect`, which is not modelled here.
-/

namespace Gearhulk

-- ════════════════════════════════════════════════════════════════════════
-- Job functions
-- ════════════════════════════════════════════════════════════════════════

/-- A Go panic value, as `recover()` returns it: an `error`, or a value of another type. -/
inductive PanicValue
  | error (e : GoError)
  | other

/-- What one call of a `JobFunc` does: it returns `(data, err)`, it panics, or it does not
return before the timeout it is registered with has elapsed (with no timeout: it does not
return at all). -/
inductive Outcome
  | returns (data : Bytes) (err : Option GoError)
  | panics (v : PanicValue)
  | overruns

/-- `JobFunc`: the user's function, as the outcome of calling it on each job. -/
abbrev JobFunc := InPack → Outcome

/-- `jobFunc`: a registered function and its timeout in seconds (`0`: no timeout). -/
structure JobFuncEntry where
  f : JobFunc
  timeout : UInt32

/-- `jobFuncs`: the functions by name. -/
abbrev JobFuncs := AList (fun _ : Bytes => JobFuncEntry)

/-- `ErrNoneAgents`. -/
def errNoneAgents : GoError := { format := "None active agents" }

/-- `ErrNoneFuncs`. -/
def errNoneFuncs : GoError := { format := "None functions" }

/-- `ErrTimeOut`. -/
def errTimeOut : GoError := { format := "Executing time out" }

/-- `ErrUnknown`. -/
def errUnknown : GoError := { format := "Unknown error" }

-- ════════════════════════════════════════════════════════════════════════
-- The worker and its calls
-- ════════════════════════════════════════════════════════════════════════

/-- The fields of a `Worker` that registration and `exec` read and write. Each agent is the
list of packets written to it, oldest first; `isReady` is `worker.ready`, and `once` records
whether `worker.once` has run its function. -/
structure Worker where
  agents : List (List OutPack)
  funcs : JobFuncs := ∅
  running : Bool := false
  isReady : Bool := false
  shuttingDown : Bool := false
  once : Bool := false
  /-- Whether `close(worker.in)` has run. -/
  inClosed : Bool := false

namespace Worker

/-- `New`: no agent and no function. -/
def new : Worker := { agents := [] }

/-- `AddServer`: one more agent, which has been sent nothing. -/
def addServer (w : Worker) : Worker := { w with agents := w.agents ++ [[]] }

/-- `broadcast`: the packet is written to every agent. -/
def broadcast (w : Worker) (p : OutPack) : Worker := { w with agents := w.agents.map (· ++ [p]) }

/-- `addFunc`, the inner add: announce the function to every server. -/
def innerAddFunc (w : Worker) (funcname : Bytes) (timeout : UInt32) : Worker :=
  w.broadcast (prepFuncOutpack funcname timeout)

/-- `removeFunc`, the inner remove: `CANT_DO funcname` to every server. -/
def innerRemoveFunc (w : Worker) (funcname : Bytes) : Worker :=
  w.broadcast { dataType := PT.cantDo, data := funcname }

/-- `AddFunc`: refuse a name already there; otherwise store the function, and announce it
only while `running`. -/
def addFunc (w : Worker) (funcname : Bytes) (f : JobFunc) (timeout : UInt32) :
    Worker × Option GoError :=
  if funcname ∈ w.funcs then (w, some ⟨"The function already exists: %s", [funcname]⟩)
  else
    let w' := { w with funcs := w.funcs.insert funcname ⟨f, timeout⟩ }
    (if w.running then w'.innerAddFunc funcname timeout else w', none)

/-- `RemoveFunc`: refuse a name not there; otherwise delete it, and announce that only while
`running`. -/
def removeFunc (w : Worker) (funcname : Bytes) : Worker × Option GoError :=
  if funcname ∈ w.funcs then
    let w' := { w with funcs := w.funcs.erase funcname }
    (if w.running then w'.innerRemoveFunc funcname else w', none)
  else (w, some ⟨"The function does not exist: %s", [funcname]⟩)

/-- `Reset`: `RESET_ABILITIES` to every server, and no function left. -/
def reset (w : Worker) : Worker :=
  { w.broadcast { dataType := PT.resetAbilities } with funcs := ∅ }

/-- The function `worker.once` runs in `Ready`: announce every stored function. -/
def registerFuncs (w : Worker) : Worker :=
  w.funcs.entries.foldl (fun w e => w.innerAddFunc e.1 e.2.timeout) w

/-- The packets `registerFuncs` sends each server, in the order it sends them. -/
def registration (funcs : JobFuncs) : List OutPack :=
  funcs.entries.map fun e => prepFuncOutpack e.1 e.2.timeout

/-- `Ready`: with an agent and a function, connect every agent (`connectErr` is the error of
the first agent that fails to connect, if one does), register the functions the first time
only, and set `ready`. -/
def ready (w : Worker) (connectErr : Option GoError) : Worker × Option GoError :=
  if w.agents.length = 0 then (w, some errNoneAgents)
  else if w.funcs.entries.length = 0 then (w, some errNoneFuncs)
  else match connectErr with
    | some e => (w, some e)
    | none =>
      let w' := if w.once then w else { w.registerFuncs with once := true }
      ({ w' with isReady := true }, none)

/-- `GRAB_JOB`, which `a.Grab()` writes. -/
def grabJob : OutPack := { dataType := PT.grabJob }

/-- `Work` once it is ready: set `running` and grab through every agent. -/
def start (w : Worker) : Worker :=
  { w with running := true, agents := w.agents.map (· ++ [grabJob]) }

/-- `Work` up to its loop over `worker.in`: `Ready` unless `ready` is set, where an error
panics and ends the program (`none`); then set `running` and grab through every agent. -/
def work (w : Worker) (connectErr : Option GoError) : Option Worker :=
  if w.isReady then some w.start
  else match w.ready connectErr with
    | (w', none) => some w'.start
    | (_, some _) => none

/-- `Echo`: `ECHO_REQ` with the data, to every server. -/
def echo (w : Worker) (data : Bytes) : Worker :=
  w.broadcast { dataType := PT.echoReq, data := data }

/-- `SetId`: `SET_CLIENT_ID` with the id, to every server (`worker.Id`, which no modelled
function reads, is left out). -/
def setId (w : Worker) (id : Bytes) : Worker :=
  w.broadcast { dataType := PT.setClientId, data := id }

/-- `Close`: while `running`, close every agent, unset `running` and close `worker.in`, which
panics (`none`) on a channel closed already; nothing otherwise. Closing an agent is agent
code: its list keeps the packets written to it. -/
def close (w : Worker) : Option Worker :=
  if w.running then
    if w.inClosed then none else some { w with running := false, inClosed := true }
  else some w

end Worker

/-- A call of the worker's API that writes to the agents; `Ready` and `Work` carry the
outcome of connecting the agents. -/
inductive Call
  | addFunc (funcname : Bytes) (f : JobFunc) (timeout : UInt32)
  | removeFunc (funcname : Bytes)
  | reset
  | ready (connectErr : Option GoError)
  | work (connectErr : Option GoError)
  | echo (data : Bytes)
  | setId (id : Bytes)
  | close

/-- One call: the worker after it, or `none` when it panics. An error a call returns leaves
the worker as it was. -/
def Worker.call (w : Worker) : Call → Option Worker
  | .addFunc n f t => some (w.addFunc n f t).1
  | .removeFunc n => some (w.removeFunc n).1
  | .reset => some w.reset
  | .ready e => some (w.ready e).1
  | .work e => w.work e
  | .echo d => some (w.echo d)
  | .setId id => some (w.setId id)
  | .close => w.close

/-- A sequence of calls, one after another; `none` once one of them panics. -/
def runCalls (w : Worker) : List Call → Option Worker
  | [] => some w
  | c :: cs => (w.call c).bind (runCalls · cs)

-- ════════════════════════════════════════════════════════════════════════
-- What a server believes
-- ════════════════════════════════════════════════════════════════════════

/-- The abilities a server holds for a worker: each function name with its timeout. -/
abbrev Abilities := AList (fun _ : Bytes => UInt32)

/-- How a server reads one packet, as the spec describes the worker-control packets:
`CAN_DO f` and `CAN_DO_TIMEOUT f t` (the name, a NUL, the big-endian timeout) add `f` with
its timeout, `CANT_DO f` removes it, `RESET_ABILITIES` removes all; other packets change
nothing. -/
def applyAbility (m : Abilities) (p : OutPack) : Abilities :=
  if p.dataType = PT.canDo then m.insert p.data 0
  else if p.dataType = PT.canDoTimeout then
    m.insert (p.data.take (p.data.length - 5)) (bigEndianUint32 (p.data.drop (p.data.length - 4)))
  else if p.dataType = PT.cantDo then m.erase p.data
  else if p.dataType = PT.resetAbilities then ∅
  else m

/-- What a server believes after the packets an agent wrote to it, in order. -/
def replay (log : List OutPack) : Abilities := log.foldl applyAbility ∅

/-- A server's abilities agree with the worker's functions: the same names, each with the
timeout it is stored with. -/
def Agrees (m : Abilities) (funcs : JobFuncs) : Prop :=
  ∀ n, m.lookup n = (funcs.lookup n).map JobFuncEntry.timeout

/-- The server an agent talks to agrees with `funcs`. -/
def InSync (log : List OutPack) (funcs : JobFuncs) : Prop := Agrees (replay log) funcs

/-- Every server agrees with the worker's functions. -/
def Synced (w : Worker) : Prop := ∀ log ∈ w.agents, InSync log w.funcs

theorem replay_append (log ps : List OutPack) :
    replay (log ++ ps) = ps.foldl applyAbility (replay log) :=
  List.foldl_append _ _ _ _

@[simp] theorem replay_append_singleton (log : List OutPack) (p : OutPack) :
    replay (log ++ [p]) = applyAbility (replay log) p := by
  simp [replay_append]

theorem applyAbility_prepFuncOutpack (m : Abilities) (funcname : Bytes) (t : UInt32) :
    applyAbility m (prepFuncOutpack funcname t) = m.insert funcname t := by
  by_cases ht : t = 0
  · simp [prepFuncOutpack, ht, applyAbility]
  · have hlen : (funcname ++ nul :: bigEndianPutUint32 t).length - 5 = funcname.length := by
      simp [length_bigEndianPutUint32]
    have hdrop : (funcname ++ nul :: bigEndianPutUint32 t).drop
        ((funcname ++ nul :: bigEndianPutUint32 t).length - 4) = bigEndianPutUint32 t := by
      simp [length_bigEndianPutUint32, List.drop_append_eq_append_drop]
    rw [prepFuncOutpack_timeout funcname ht]
    simp only [applyAbility, if_neg (show PT.canDoTimeout ≠ PT.canDo by decide), if_true, hlen,
      hdrop, List.take_left, bigEndianUint32_put]

@[simp] theorem applyAbility_cantDo (m : Abilities) (funcname : Bytes) :
    applyAbility m { dataType := PT.cantDo, data := funcname } = m.erase funcname := rfl

@[simp] theorem applyAbility_resetAbilities (m : Abilities) :
    applyAbility m { dataType := PT.resetAbilities } = ∅ := rfl

@[simp] theorem applyAbility_grabJob (m : Abilities) : applyAbility m Worker.grabJob = m := rfl

theorem Agrees.insert {m : Abilities} {funcs : JobFuncs} (h : Agrees m funcs) (n : Bytes)
    (e : JobFuncEntry) : Agrees (m.insert n e.timeout) (funcs.insert n e) := by
  intro k
  by_cases hk : k = n
  · subst hk; simp
  · simp [AList.lookup_insert_ne hk, h k]

theorem Agrees.erase {m : Abilities} {funcs : JobFuncs} (h : Agrees m funcs) (n : Bytes) :
    Agrees (m.erase n) (funcs.erase n) := by
  intro k
  by_cases hk : k = n
  · subst hk; simp
  · simp [AList.lookup_erase_ne hk, h k]

/-- Announcing a list of entries with distinct names, in order, over any abilities: the
names announced now take the timeouts they are announced with, the others keep theirs. -/
theorem lookup_foldl_insert (es : List (Sigma fun _ : Bytes => JobFuncEntry))
    (hes : es.NodupKeys) (m : Abilities) (n : Bytes) :
    (es.foldl (fun m e => m.insert e.1 e.2.timeout) m).lookup n =
      ((es.dlookup n).map JobFuncEntry.timeout).or (m.lookup n) := by
  induction es generalizing m with
  | nil => rfl
  | cons e es ih =>
    obtain ⟨k, v⟩ := e
    obtain ⟨hk, hes⟩ := List.nodupKeys_cons.1 hes
    rw [List.foldl_cons, ih hes]
    by_cases hn : n = k
    · subst hn
      simp [List.dlookup_eq_none.2 hk, List.dlookup_cons_eq]
    · simp [List.dlookup_cons_ne es ⟨k, v⟩ hn, AList.lookup_insert_ne hn]

-- ════════════════════════════════════════════════════════════════════════
-- One call at a time
-- ════════════════════════════════════════════════════════════════════════

section Calls

variable {w w' : Worker}

theorem Worker.registerFuncs_eq (w : Worker) :
    w.registerFuncs = { w with agents := w.agents.map (· ++ Worker.registration w.funcs) } := by
  suffices ∀ (es : List (Sigma fun _ : Bytes => JobFuncEntry)) (v : Worker),
      es.foldl (fun w e => w.innerAddFunc e.1 e.2.timeout) v =
        { v with
          agents := v.agents.map (· ++ es.map fun e => prepFuncOutpack e.1 e.2.timeout) } from
    this _ w
  intro es
  induction es with
  | nil => intro v; simp
  | cons e es ih =>
    intro v
    rw [List.foldl_cons, ih]
    simp [Worker.innerAddFunc, Worker.broadcast, Function.comp_def]

theorem Worker.ready_isReady (h : (w.ready e).2 = none) : (w.ready e).1.isReady = true := by
  unfold Worker.ready at *
  split_ifs at * <;> cases e <;> simp_all

theorem Worker.addServer_iterate_new (k : Nat) :
    Worker.addServer^[k] Worker.new = { agents := List.replicate k [] } := by
  induction k with
  | zero => rfl
  | succ k ih =>
    rw [Function.iterate_succ_apply', ih]; simp [Worker.addServer, List.replicate_succ']

/-- The one registration `Ready` makes tells a server that had been told of no function
exactly the worker's functions. -/
theorem replay_registration {log : List OutPack} (funcs : JobFuncs)
    (h : ∀ n, (replay log).lookup n = none) :
    Agrees (replay (log ++ Worker.registration funcs)) funcs := by
  intro n
  have hfold : (Worker.registration funcs).foldl applyAbility (replay log) =
      funcs.entries.foldl (fun m e => m.insert e.1 e.2.timeout) (replay log) := by
    rw [Worker.registration, List.foldl_map]
    simp only [applyAbility_prepFuncOutpack]
  rw [replay_append, hfold, lookup_foldl_insert _ funcs.nodupKeys, h n, Option.or_none]
  rfl

/-- A call that changes `funcs` without telling the servers: a successful `AddFunc` or
`RemoveFunc` after the first registration while `running` is unset. -/
def Worker.Unannounced (w : Worker) : Call → Prop
  | .addFunc n _ _ => w.once = true ∧ w.running = false ∧ n ∉ w.funcs
  | .removeFunc n => w.once = true ∧ w.running = false ∧ n ∈ w.funcs
  | _ => False

/-- What registration keeps of a worker: `ready` and `running` come after the first
registration; before it, no server has been told of a function; after it, every server
agrees with `funcs`. -/
structure Registered (w : Worker) : Prop where
  ready_once : w.isReady = true → w.once = true
  running_ready : w.running = true → w.isReady = true
  before_once : w.once = false → ∀ log ∈ w.agents, ∀ n, (replay log).lookup n = none
  after_once : w.once = true → Synced w

theorem Registered.new (k : Nat) : Registered (Worker.addServer^[k] Worker.new) := by
  rw [Worker.addServer_iterate_new]
  exact ⟨fun h => absurd h Bool.false_ne_true, fun h => absurd h Bool.false_ne_true,
    fun _ log hlog n => by rw [List.eq_of_mem_replicate hlog]; rfl,
    fun h => absurd h Bool.false_ne_true⟩

/-- After the first registration, a broadcast that changes `funcs` on the servers as it
changes them on the worker keeps every server in sync. -/
theorem Registered.broadcast (hi : Registered w) (ho : w.once = true) {p : OutPack}
    {funcs : JobFuncs}
    (hp : ∀ log, InSync log w.funcs → Agrees (applyAbility (replay log) p) funcs) :
    Registered { w.broadcast p with funcs := funcs } := by
  refine ⟨hi.ready_once, hi.running_ready, fun h => absurd (ho.symm.trans h) (by decide),
    fun _ log hlog => ?_⟩
  obtain ⟨log, hmem, rfl⟩ := List.mem_map.1 hlog
  simpa [InSync] using hp log (hi.after_once ho log hmem)

/-- A broadcast of a packet that no server reads as a change of abilities keeps what
registration keeps. -/
theorem Registered.broadcast_inert (hi : Registered w) {p : OutPack}
    (hp : ∀ m, applyAbility m p = m) : Registered (w.broadcast p) := by
  have hreplay : ∀ log ∈ (w.broadcast p).agents, ∃ l ∈ w.agents, replay log = replay l := by
    intro log hlog
    obtain ⟨l, hl, rfl⟩ := List.mem_map.1 hlog
    exact ⟨l, hl, by rw [replay_append_singleton, hp]⟩
  refine ⟨hi.ready_once, hi.running_ready, fun ho log hlog => ?_, fun ho log hlog => ?_⟩ <;>
    obtain ⟨l, hl, hr⟩ := hreplay log hlog
  · rw [hr]; exact hi.before_once ho l hl
  · unfold InSync; rw [hr]; exact hi.after_once ho l hl

/-- Before the first registration, changing `funcs` alone keeps what registration keeps. -/
theorem Registered.setFuncs (hi : Registered w) (ho : w.once = false) (funcs : JobFuncs) :
    Registered { w with funcs := funcs } :=
  ⟨hi.ready_once, hi.running_ready, fun _ => hi.before_once ho,
    fun h => absurd (ho.symm.trans h) (by decide)⟩

theorem Registered.addFunc (hi : Registered w) (n : Bytes) (f : JobFunc) (t : UInt32)
    (hc : ¬ w.Unannounced (.addFunc n f t)) : Registered (w.addFunc n f t).1 := by
  unfold Worker.addFunc
  split_ifs with hn hrun
  · exact hi
  · exact hi.broadcast (hi.ready_once (hi.running_ready hrun)) fun log h => by
      rw [applyAbility_prepFuncOutpack]; exact h.insert n ⟨f, t⟩
  · exact hi.setFuncs (Bool.eq_false_iff.2 fun ho => hc ⟨ho, by simpa using hrun, hn⟩) _

theorem Registered.removeFunc (hi : Registered w) (n : Bytes)
    (hc : ¬ w.Unannounced (.removeFunc n)) : Registered (w.removeFunc n).1 := by
  unfold Worker.removeFunc
  split_ifs with hn hrun
  · exact hi.broadcast (hi.ready_once (hi.running_ready hrun)) fun log h => by
      rw [applyAbility_cantDo]; exact h.erase n
  · exact hi.setFuncs (Bool.eq_false_iff.2 fun ho => hc ⟨ho, by simpa using hrun, hn⟩) _
  · exact hi

theorem Registered.reset (hi : Registered w) : Registered w.reset := by
  have hempty : ∀ log ∈ w.reset.agents, ∀ n, (replay log).lookup n = none := by
    intro log hlog n
    obtain ⟨log, -, rfl⟩ := List.mem_map.1 hlog
    simp
  exact ⟨hi.ready_once, hi.running_ready, fun _ => hempty,
    fun _ log hlog n => by rw [hempty log hlog n]; rfl⟩

theorem Registered.ready (hi : Registered w) (e : Option GoError) : Registered (w.ready e).1 := by
  unfold Worker.ready
  split_ifs with ha hf ho
  · exact hi
  · exact hi
  · cases e with
    | some e => exact hi
    | none =>
      exact ⟨fun _ => ho, fun _ => rfl, fun h => absurd (ho.symm.trans h) (by decide),
        hi.after_once⟩
  · cases e with
    | some e => exact hi
    | none =>
      rw [Worker.registerFuncs_eq]
      refine ⟨fun _ => rfl, fun _ => rfl, fun h => absurd h.symm Bool.false_ne_true,
        fun _ log hlog => ?_⟩
      obtain ⟨log, hmem, rfl⟩ := List.mem_map.1 hlog
      exact replay_registration w.funcs (hi.before_once (by simpa using ho) log hmem)

theorem Registered.start (hi : Registered w) (hr : w.isReady = true) : Registered w.start := by
  have ho := hi.ready_once hr
  refine ⟨hi.ready_once, fun _ => hr, fun h => absurd (ho.symm.trans h) (by decide),
    fun _ log hlog => ?_⟩
  obtain ⟨log, hmem, rfl⟩ := List.mem_map.1 hlog
  simpa [InSync] using hi.after_once ho log hmem

theorem Registered.work (hi : Registered w) (e : Option GoError) (h : w.work e = some w') :
    Registered w' := by
  unfold Worker.work at h
  split_ifs at h with hr
  · cases h; exact hi.start hr
  · split at h
    · next v hv =>
      cases h
      have hready := Worker.ready_isReady (w := w) (e := e) (by rw [hv])
      have hreg := hi.ready e
      rw [hv] at hready hreg
      exact hreg.start hready
    · cases h

theorem Registered.close (hi : Registered w) (h : w.close = some w') : Registered w' := by
  unfold Worker.close at h
  split_ifs at h
  · cases h
    exact ⟨hi.ready_once, fun h => absurd h Bool.false_ne_true, hi.before_once, hi.after_once⟩
  · cases h; exact hi

/-- No call but an unannounced change breaks what registration keeps. -/
theorem Registered.call (hi : Registered w) {c : Call} (hc : ¬ w.Unannounced c)
    (h : w.call c = some w') : Registered w' := by
  cases c with
  | addFunc n f t => cases h; exact hi.addFunc n f t hc
  | removeFunc n => cases h; exact hi.removeFunc n hc
  | reset => cases h; exact hi.reset
  | ready e => cases h; exact hi.ready e
  | work e => exact hi.work e h
  | echo d => cases h; exact hi.broadcast_inert fun _ => rfl
  | setId id => cases h; exact hi.broadcast_inert fun _ => rfl
  | close => exact hi.close h

/-- `Work` sets `running` only with `ready` set, and no call unsets `ready`: every call keeps
`running → ready`, the unannounced changes included. -/
theorem Worker.call_running_ready {c : Call} (hw : w.running = true → w.isReady = true)
    (h : w.call c = some w') : w'.running = true → w'.isReady = true := by
  cases c with
  | addFunc n f t => cases h; unfold Worker.addFunc; split_ifs <;> exact hw
  | removeFunc n => cases h; unfold Worker.removeFunc; split_ifs <;> exact hw
  | reset => cases h; exact hw
  | ready e =>
    cases h
    intro hr
    unfold Worker.ready at *
    split_ifs at * <;> cases e <;> simp_all
  | work e =>
    change w.work e = some w' at h
    unfold Worker.work at h
    split_ifs at h with hr
    · cases h; exact fun _ => hr
    · split at h
      · next v hv =>
        cases h
        have hready := Worker.ready_isReady (w := w) (e := e) (by rw [hv])
        rw [hv] at hready
        exact fun _ => hready
      · cases h
  | echo d => cases h; exact hw
  | setId id => cases h; exact hw
  | close =>
    change w.close = some w' at h
    unfold Worker.close at h
    split_ifs at h
    · cases h; exact fun h => absurd h Bool.false_ne_true
    · cases h; exact hw

end Calls

-- ════════════════════════════════════════════════════════════════════════
-- Runs
-- ════════════════════════════════════════════════════════════════════════

/-- A run of calls in which no call is an unannounced change. -/
def AnnouncedRun : Worker → List Call → Prop
  | _, [] => True
  | w, c :: cs => ¬ w.Unannounced c ∧ ∀ w', w.call c = some w' → AnnouncedRun w' cs

theorem Registered.runCalls {w w' : Worker} (hi : Registered w) {cs : List Call}
    (ha : AnnouncedRun w cs) (h : runCalls w cs = some w') : Registered w' := by
  induction cs generalizing w with
  | nil => cases h; exact hi
  | cons c cs ih =>
    obtain ⟨hc, hrest⟩ := ha
    obtain ⟨v, hv, h⟩ := Option.bind_eq_some.1 h
    exact ih (hi.call hc hv) (hrest v hv) h

/-- In every run from `New` with any number of servers in which no function is added or
removed between the first `Ready` and `Work`, every server agrees with `funcs` whenever the
worker is running. -/
theorem synced_of_announced {k : Nat} {cs : List Call} {w : Worker}
    (ha : AnnouncedRun (Worker.addServer^[k] Worker.new) cs)
    (h : runCalls (Worker.addServer^[k] Worker.new) cs = some w) (hrun : w.running = true) :
    Synced w :=
  have hi := (Registered.new k).runCalls ha h
  hi.after_once (hi.ready_once (hi.running_ready hrun))

/-- `AddFunc("a")`, `Ready`, `Work` from `New` with one server: its server agrees with the
worker. -/
theorem synced_of_announced_one_server :
    ∃ w, runCalls (Worker.addServer^[1] Worker.new)
      [.addFunc [97] (fun _ => .returns [] none) 0, .ready none, .work none] = some w ∧ Synced w :=
  ⟨_, rfl, @synced_of_announced 1
    [.addFunc [97] (fun _ => .returns [] none) 0, .ready none, .work none] _
    ⟨fun h => absurd h.1 (by decide), fun _ _ => ⟨id, fun _ _ => ⟨id, fun _ _ => trivial⟩⟩⟩
    rfl rfl⟩

/-- Whenever a worker that has registered its functions and is not yet running is given a
new function, `Work` starts it with every server unaware of that function. -/
theorem work_after_unannounced_addFunc {w w' : Worker} {n : Bytes} {f : JobFunc} {t : UInt32}
    {e : Option GoError} (hi : Registered w) (hr : w.isReady = true) (hrun : w.running = false)
    (hn : n ∉ w.funcs) (h : (w.addFunc n f t).1.work e = some w') :
    w'.running = true ∧ ∀ log ∈ w'.agents, ¬ InSync log w'.funcs := by
  simp only [Worker.addFunc, hn, hrun, if_false, Bool.false_eq_true, Worker.work, hr, if_true,
    Option.some.injEq] at h
  subst h
  refine ⟨rfl, fun log hlog hsync => ?_⟩
  obtain ⟨log, hmem, rfl⟩ := List.mem_map.1 hlog
  have hold : (replay log).lookup n = none := by
    rw [hi.after_once (hi.ready_once hr) log hmem n, AList.lookup_eq_none.2 hn]; rfl
  have hnew := hsync n
  rw [replay_append_singleton, applyAbility_grabJob, hold] at hnew
  simp [Worker.start] at hnew

/-- `AddFunc("a")` and `Ready` from `New` with one server, then `AddFunc("b")` and `Work`. -/
theorem work_after_unannounced_addFunc_one_server :
    ∃ w, runCalls (Worker.addServer^[1] Worker.new)
        [.addFunc [97] (fun _ => .returns [] none) 0, .ready none,
          .addFunc [98] (fun _ => .returns [] none) 0, .work none] = some w ∧
      w.running = true ∧ ∀ log ∈ w.agents, ¬ InSync log w.funcs :=
  ⟨_, rfl, @work_after_unannounced_addFunc
    (((Worker.addServer^[1] Worker.new).addFunc [97] (fun _ => .returns [] none) 0).1.ready none).1
    _ [98] (fun _ => .returns [] none) 0 none
    (@Registered.runCalls _ _ (Registered.new 1)
      [.addFunc [97] (fun _ => .returns [] none) 0, .ready none]
      ⟨fun h => absurd h.1 (by decide), fun _ _ => ⟨id, fun _ _ => trivial⟩⟩ rfl)
    rfl rfl (by decide) rfl⟩

theorem runCalls_running_ready {w w' : Worker} {cs : List Call}
    (hw : w.running = true → w.isReady = true) (h : runCalls w cs = some w') :
    w'.running = true → w'.isReady = true := by
  induction cs generalizing w with
  | nil => cases h; exact hw
  | cons c cs ih =>
    obtain ⟨v, hv, h⟩ := Option.bind_eq_some.1 h
    exact ih (Worker.call_running_ready hw hv) h

/-- `Close` guards `close(worker.in)` with `running` alone, and `Work` sets `running` again:
from every running worker that calls from `New` reach, unannounced changes included, `Close`,
`Work` and `Close` panic on closing a closed channel. -/
theorem close_after_restart_panics {k : Nat} {cs : List Call} {w : Worker}
    (h : runCalls (Worker.addServer^[k] Worker.new) cs = some w) (hr : w.running = true)
    (e : Option GoError) : runCalls w [.close, .work e, .close] = none := by
  have hready := runCalls_running_ready (Registered.new k).running_ready h hr
  by_cases hc : w.inClosed = true
  · simp [runCalls, Worker.call, Worker.close, hr, hc]
  · simp [runCalls, Worker.call, Worker.close, Worker.work, Worker.start, hr, hc, hready]

/-- `AddFunc("a")` and `Ready` from `New` with one server, an unannounced `AddFunc("b")` and
`Work`, then `Close`, `Work` and `Close`. -/
theorem close_after_restart_panics_one_server :
    ∃ w, runCalls (Worker.addServer^[1] Worker.new)
        [.addFunc [97] (fun _ => .returns [] none) 0, .ready none,
          .addFunc [98] (fun _ => .returns [] none) 0, .work none] = some w ∧
      w.running = true ∧ runCalls w [.close, .work none, .close] = none :=
  ⟨_, rfl, rfl, @close_after_restart_panics 1
    [.addFunc [97] (fun _ => .returns [] none) 0, .ready none,
      .addFunc [98] (fun _ => .returns [] none) 0, .work none] _ rfl rfl none⟩

end Gearhulk
