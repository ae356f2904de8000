import Gearhulk.Cmd.PersistentMode

/-!
# Runs of persistent jobs

`createJobHandler(command, false)` hands one subprocess every job, one after another under its
mutex. Each job runs `processJobWithPersistentSubprocess` from where the jobs before it left the
pipes and the subprocess, and reads through a `bufio.Reader` of its own, dropped with what it had
taken from the pipe past its last line.

`JobRun` is one job in the model of `Gearhulk.Cmd.Pipes`: a schedule of steps of the handler and
the subprocess from `Sys.nextJob` to the handler's return, then the reader's drop. `Jobs` chains
them from `Sys.started`, the state before the first job.

## Main definitions

- `Sys.dropRead` — the bytes a job's reader took past its last line, gone
- `JobRun`, `Jobs` — one job, and jobs one after another
- `JobFits` — a job fits its pipes from the state it starts in
- `Drained` — nothing of earlier jobs is left

## Main results

- `JobRun.spec` — a job returns the first `readCount` lines of what is to come, and the next job
  starts from the rest, less what the reader dropped.
- `JobRun.refines_persistentJob` — every job of a run returns what `persistentJob`, the model
  over one reader, returns from a pipe holding what was to come.
- `nextJob_returns_lines` — after any run of jobs, every schedule of a job that fits its pipes is
  bounded, never stops before the handler returns, and returns those lines.
- `fitting_jobs_return` — the handler runs every sequence of jobs that fits what standard input
  has room for.
- `clean_run_results` — when the handler reads a line for each line it writes, every job returns
  the answers to its own lines and nothing is left.
- `persistentJob_drains_iff` — a job from a drained state leaves it drained exactly when it reads
  a line for each line it writes; otherwise the answers it does not read are left.
- `blank_payload_shifts_next_result` — a job whose every input line is skipped leaves its answers,
  and the next job returns them in place of its own.
- `fitting_payload_never_deadlocks` — a job whose bytes fit what standard input has room for
  never deadlocks.

## Design notes

The handler of `Gearhulk.Cmd.Pipes` reads a byte at a time. A `bufio.Reader` takes what the pipe
holds in larger reads, so when a job returns, its reader may hold bytes past the last line: a
prefix of what standard output then holds, at most the reader's buffer, and nothing when the job
reads no line. `JobRun` drops them at the job's end; every result below holds for every such
drop.
-/

namespace Gearhulk

-- ════════════════════════════════════════════════════════════════════════
-- Jobs one after another
-- ════════════════════════════════════════════════════════════════════════

/-- The first `k` bytes of standard output are gone: read by a job's `bufio.Reader` past its last
line, and dropped with it. -/
def Sys.dropRead (s : Sys) (k : Nat) : Sys :=
  { s with stdout := { s.stdout with buf := s.stdout.buf.drop k } }

/-- One job from `s` with the payload `d`, returning `r`, the next job to start from `s'`: a
schedule of steps from `s.nextJob skip d` to a state `t` where the handler has returned `r` with
no error, the subprocess perhaps still at work, and `t` less the first `k` bytes of standard
output, which the job's reader took and dropped: at most its buffer, and none when the job reads
no line. -/
inductive JobRun (c : Caps) (p : LineCommand) (skip : Bytes → Bool) (s : Sys) (d : Bytes) :
    Bytes → Sys → Prop
  | mk {as : List Party} {t : Sys} {r : Bytes} (k : Nat) :
      Sys.run c p (s.nextJob skip d) as = some t → t.worker = .done r none →
      k ≤ t.stdout.buf.length → k ≤ defaultBufSize → (readCount skip d = 0 → k = 0) →
      JobRun c p skip s d r (t.dropRead k)

/-- Jobs handled one after another from `s`, as the handler's mutex keeps them: the payloads
`ds`, their results `rs`, and the state after the last. -/
inductive Jobs (c : Caps) (p : LineCommand) (skip : Bytes → Bool) :
    Sys → List Bytes → List Bytes → Sys → Prop
  | nil (s : Sys) : Jobs c p skip s [] [] s
  | cons {s s' u : Sys} {d r : Bytes} {ds rs : List Bytes} :
      JobRun c p skip s d r s' → Jobs c p skip s' ds rs u → Jobs c p skip s (d :: ds) (r :: rs) u

/-- The job with the payload `d` fits its pipes from `s`: what standard input holds and the job's
bytes fit standard input, with room for a byte in standard output; or all that is to come fits
standard output, with room for a byte in standard input. -/
def JobFits (c : Caps) (p : LineCommand) (s : Sys) (d : Bytes) : Prop :=
  (s.stdin.buf ++ withNewline d).length ≤ c.stdin ∧ 0 < c.stdout ∨
    0 < c.stdin ∧ (s.toCome p (withNewline d)).length ≤ c.stdout

/-- Nothing of earlier jobs is left: the subprocess has read all of its input and is between two
lines, and the handler has read all it wrote. -/
def Drained (s : Sys) : Prop :=
  s.stdin.buf = [] ∧ s.child.line = [] ∧ s.child.out = [] ∧ s.stdout.buf = []

theorem Drained.started : Drained Sys.started := ⟨rfl, rfl, rfl, rfl⟩

/-- Under an invariant where every step raises a bounded measure, some schedule from a state with
the invariant reaches a state where neither party moves. -/
theorem exists_stuck_run_of_measure {c : Caps} {p : LineCommand} {ι : Type} {I : ι → Sys → Prop}
    (m : ι → Sys → Nat) (B : Nat)
    (hstep : ∀ {i s a t}, I i s → s.step c p a = some t → ∃ i', I i' t ∧ m i s < m i' t)
    (hle : ∀ {i s}, I i s → m i s ≤ B) {i : ι} {s : Sys} (hi : I i s) :
    ∃ as t, Sys.run c p s as = some t ∧ ∀ a, t.step c p a = none := by
  by_cases hs : ∀ a, s.step c p a = none
  · exact ⟨[], s, rfl, hs⟩
  push_neg at hs
  obtain ⟨a, ha⟩ := hs
  obtain ⟨t, ht⟩ := Option.ne_none_iff_exists'.1 ha
  obtain ⟨i', hi', hlt⟩ := hstep hi ht
  have := hle hi'
  obtain ⟨as, u, hu, hstuck⟩ := exists_stuck_run_of_measure m B hstep hle hi'
  exact ⟨a :: as, u, by simp [Sys.run, ht, hu], hstuck⟩
termination_by B - m i s

section Runs

variable {c : Caps} {p : LineCommand} {skip : Bytes → Bool} {s s' u : Sys} {d r : Bytes}
  {ds rs : List Bytes}

theorem Sys.dropRead_zero (s : Sys) : s.dropRead 0 = s := rfl

theorem Between.dropRead (hb : Between c s) (k : Nat) : Between c (s.dropRead k) := { hb with }

/-- What the reader dropped, then what is to come after the drop, is what was to come. -/
theorem Sys.take_append_toCome_dropRead (s : Sys) (p : LineCommand) (k : Nat) :
    s.stdout.buf.take k ++ (s.dropRead k).toCome p [] = s.toCome p [] := by
  simp only [Sys.toCome, Sys.dropRead, ← List.append_assoc, List.take_append_drop]

theorem Drained.toCome (hd : Drained s) (p : LineCommand) (input : Bytes) :
    s.toCome p input = p.output [] input := by
  obtain ⟨hin, hl, ho, hout⟩ := hd
  simp [Sys.toCome, hin, hl, ho, hout]

/-- One job from a state between two jobs returns the first `readCount` lines of what is to come,
joined by newlines, and leaves the pipes and the subprocess between two jobs, with standard input
holding at most what the job started with, and the rest of what was to come still to come, less
what the job's reader dropped. -/
theorem JobRun.spec (hb : Between c s) (h : JobRun c p skip s d r s') :
    Between c s' ∧ s'.stdin.buf.length ≤ (s.stdin.buf ++ withNewline d).length ∧
      ∃ acc dropped, takeLines (readCount skip d) (s.toCome p (withNewline d)) =
          some (acc, dropped ++ s'.toCome p []) ∧ r = List.intercalate [newline] acc ∧
        dropped.length ≤ defaultBufSize ∧ (readCount skip d = 0 → dropped = []) := by
  obtain ⟨k, hrun, hw, -, hbuf, h0⟩ := h
  obtain ⟨-, C, R, hf, -⟩ := nextJob_run hb skip d hrun
  obtain ⟨-, acc, ht, rfl⟩ := hf.done_spec hw
  have hnil : _ = [] := (congrArg Phase.toWrite hw).trans rfl
  have hlen := congrArg List.length hf.stream
  rw [hnil, List.append_nil, List.length_drop] at hlen
  refine ⟨(hf.between (append_withNewline_ends _ d) hnil).dropRead k, by simp only [Sys.dropRead]; omega,
    acc, _, by rw [ht, Sys.take_append_toCome_dropRead], rfl,
    (List.length_take_le _ _).trans hbuf, fun hn => by rw [h0 hn, List.take_zero]⟩

/-- Each job of a run refines the model over one reader: for every schedule of that reader's reads,
`persistentJob` from a pipe holding what was to come when the job started returns what the job
returns, and what is then to come is, in both models, the rest less a prefix their readers
dropped. -/
theorem JobRun.refines_persistentJob (hb : Between c s) (h : JobRun c p skip s d r s')
    (sched : List Nat) :
    ∃ q rest, persistentJob skip p.answer ⟨s.toCome p [], sched⟩ d = some (r, q) ∧
      (∃ buf, buf ++ q.pending = rest) ∧ ∃ dropped, dropped ++ s'.toCome p [] = rest := by
  obtain ⟨-, -, acc, dropped, ht, rfl, -⟩ := h.spec hb
  rw [hb.toCome_append, p.output_withNewline] at ht
  obtain ⟨q, hj, hq⟩ := persistentJob_spec (p := ⟨s.toCome p [], sched⟩) ht
  exact ⟨q, _, hj, hq, dropped, rfl⟩

/-- A job that fits its pipes returns: some schedule takes the handler to its return, and a reader
that drops nothing leaves all the rest of what was to come for the next job. -/
theorem Between.exists_jobRun (hb : Between c s) (skip : Bytes → Bool) (hfit : JobFits c p s d) :
    ∃ r t, JobRun c p skip s d r t ∧
      ∃ acc, takeLines (readCount skip d) (s.toCome p (withNewline d)) = some (acc, t.toCome p []) ∧
        r = List.intercalate [newline] acc := by
  obtain ⟨as, t, hrun, hstuck⟩ := exists_stuck_run_of_measure
    (I := fun (i : Nat × Nat) u =>
      Answering c p (s.stdin.buf ++ withNewline d) (s.toCome p (withNewline d)) (readCount skip d)
        i.1 i.2 u)
    (fun i u => Sys.answered u i.1 i.2) _
    (fun hf h => let ⟨C', R', hf', hlt⟩ := hf.step (append_withNewline_ends _ d) h
      ⟨(C', R'), hf', hlt⟩)
    (fun hf => hf.answered_le) (i := (0, 0)) (hb.answering skip d)
  obtain ⟨-, C, R, hf, hfits⟩ := nextJob_run hb skip d hrun
  obtain ⟨r, hw⟩ := hf.done_of_fits (hb.readCount_le_count p skip d) hfit hfits hstuck
  obtain ⟨-, acc, ht, hr⟩ := hf.done_spec hw
  have hj := JobRun.mk 0 hrun hw (Nat.zero_le _) (Nat.zero_le _) (fun _ => rfl)
  rw [Sys.dropRead_zero] at hj
  exact ⟨r, t, hj, acc, ht, hr⟩

theorem Jobs.between (hb : Between c s) (h : Jobs c p skip s ds rs u) : Between c u := by
  induction h with
  | nil => exact hb
  | cons hj _ ih => exact ih (hj.spec hb).1

/-- Over a run of jobs, standard input holds at most what it held and the bytes of the jobs. -/
theorem Jobs.stdin_le (hb : Between c s) (h : Jobs c p skip s ds rs u) :
    u.stdin.buf.length ≤ (s.stdin.buf ++ (ds.map withNewline).flatten).length := by
  induction h with
  | nil => simp
  | cons hj _ ih =>
    obtain ⟨hb', hle, -⟩ := hj.spec hb
    have := ih hb'
    simp only [List.length_append, List.map_cons, List.flatten_cons] at hle this ⊢
    omega

/-- From a state between two jobs, the handler runs every sequence of payloads whose bytes fit
what standard input has room for. -/
theorem Jobs.exists_of_room (hout : 0 < c.stdout) : ∀ (ds : List Bytes) {s : Sys}, Between c s →
    (s.stdin.buf ++ (ds.map withNewline).flatten).length ≤ c.stdin →
    ∃ rs u, Jobs c p skip s ds rs u
  | [], s, _, _ => ⟨[], s, .nil s⟩
  | d :: ds, s, hb, hroom => by
    simp only [List.map_cons, List.flatten_cons, List.length_append] at hroom
    have hfit : JobFits c p s d := .inl ⟨by rw [List.length_append]; omega, hout⟩
    obtain ⟨r, t, hj, -⟩ := hb.exists_jobRun skip hfit
    obtain ⟨hb', hle, -⟩ := hj.spec hb
    rw [List.length_append] at hle
    obtain ⟨rs, u, hu⟩ := Jobs.exists_of_room hout ds hb' (by rw [List.length_append]; omega)
    exact ⟨r :: rs, u, .cons hj hu⟩

/-- From a drained state, a line filter answers a job's lines one for one: the job's reader finds
their answers, each followed by a newline. -/
theorem Drained.takeLines_toCome (hg : LineFilter p.answer) (hd : Drained s) (skip : Bytes → Bool)
    (d : Bytes) :
    takeLines (readCount skip d) (s.toCome p (withNewline d)) =
      some (((writtenLines d).map p.answer).take (readCount skip d),
        answers p.answer ((writtenLines d).drop (readCount skip d))) := by
  have ht := takeLines_unlines (hg.not_mem_map fun _ => not_mem_writtenLines)
    (k := readCount skip d) (by simpa using readCount_le skip d) []
  rw [hd.toCome, p.output_withNewline]
  simpa [answers, List.map_drop] using ht

/-- One job from a drained state returns the answers to its first `readCount` lines, and leaves
the answers to the others, less what its reader dropped. -/
theorem JobRun.of_drained (hg : LineFilter p.answer) (hb : Between c s) (hd : Drained s)
    (hj : JobRun c p skip s d r s') :
    Between c s' ∧
      r = List.intercalate [newline] (((writtenLines d).map p.answer).take (readCount skip d)) ∧
      ∃ dropped, dropped ++ s'.toCome p [] =
          answers p.answer ((writtenLines d).drop (readCount skip d)) ∧
        dropped.length ≤ defaultBufSize ∧ (readCount skip d = 0 → dropped = []) := by
  obtain ⟨hb', -, acc, dropped, ht, rfl, hbuf, h0⟩ := hj.spec hb
  rw [hd.takeLines_toCome hg, Option.some.injEq, Prod.mk.injEq] at ht
  exact ⟨hb', by rw [ht.1], dropped, ht.2.symm, hbuf, h0⟩

end Runs

-- ════════════════════════════════════════════════════════════════════════
-- Jobs over bounded pipes
-- ════════════════════════════════════════════════════════════════════════

/-- A payload whose every input line the handler skips still gives the subprocess its lines: for
every line filter, every test that skips an input line, and every two payloads whose bytes
together fit standard input, with room for a byte in standard output, the handler runs the two
jobs from the start, and in every run of them the first returns nothing and the second returns the
answers to the first job's lines before those to its own. -/
theorem blank_payload_shifts_next_result (c : Caps) (hout : 0 < c.stdout) (p : LineCommand)
    (hg : LineFilter p.answer) (skip : Bytes → Bool) {d₁ d₂ : Bytes}
    (hblank : readCount skip d₁ = 0)
    (hfit : (withNewline d₁).length + (withNewline d₂).length ≤ c.stdin) :
    (∃ rs s, Jobs c p skip Sys.started [d₁, d₂] rs s) ∧
    ∀ rs s, Jobs c p skip Sys.started [d₁, d₂] rs s →
      rs = [[], List.intercalate [newline]
        (((writtenLines d₁ ++ writtenLines d₂).map p.answer).take (readCount skip d₂))] := by
  refine ⟨Jobs.exists_of_room hout _ Between.started (by simpa [Sys.started] using hfit), ?_⟩
  rintro rs s (_ | ⟨hj₁, _ | ⟨hj₂, _ | _⟩⟩)
  obtain ⟨hb₁, rfl, dropped, hrest, -, h0⟩ := hj₁.of_drained hg Between.started Drained.started
  rw [h0 hblank, List.nil_append, hblank, List.drop_zero] at hrest
  obtain ⟨-, -, acc, dropped₂, ht, rfl, -⟩ := hj₂.spec hb₁
  have hy : ∀ y ∈ (writtenLines d₁ ++ writtenLines d₂).map p.answer, newline ∉ y :=
    hg.not_mem_map fun _ hl => (List.mem_append.1 hl).elim not_mem_writtenLines not_mem_writtenLines
  have hk := takeLines_unlines hy (k := readCount skip d₂)
    (by simpa using (readCount_le skip d₂).trans (Nat.le_add_left _ _)) []
  rw [hb₁.toCome_append, hrest, p.output_withNewline] at ht
  rw [List.append_nil, List.map_append, unlines_append] at hk
  rw [answers, answers, hk, Option.some.injEq, Prod.mk.injEq] at ht
  simp [hblank, ← ht.1, List.intercalate]

/-- The empty payload, then `"x"`, to `cat`: the second job returns the answer to the empty line,
not `"x"`. -/
theorem blank_payload_shifts_next_result_cat :
    0 < (⟨3, 1, 0⟩ : Caps).stdout ∧ LineFilter LineCommand.cat.answer ∧
    readCount (fun l => l.isEmpty) [] = 0 ∧
    (withNewline []).length + (withNewline [120]).length ≤ (⟨3, 1, 0⟩ : Caps).stdin ∧
    (∃ rs s, Jobs ⟨3, 1, 0⟩ LineCommand.cat (fun l => l.isEmpty) Sys.started [[], [120]] rs s) ∧
    ∀ rs s, Jobs ⟨3, 1, 0⟩ LineCommand.cat (fun l => l.isEmpty) Sys.started [[], [120]] rs s →
      rs = [[], List.intercalate [newline]
        (((writtenLines [] ++ writtenLines [120]).map LineCommand.cat.answer).take
          (readCount (fun l => l.isEmpty) [120]))] :=
  ⟨by decide, fun _ h => h, by decide, by decide,
    blank_payload_shifts_next_result ⟨3, 1, 0⟩ (by decide) LineCommand.cat (fun _ h => h)
      (fun l => l.isEmpty) (by decide) (by decide)⟩

/-- A job whose bytes fit what standard input has room for never deadlocks, in every interleaving
of the two parties and for every capacity of standard output and error with room for a byte: in
EOF mode when the command writes nothing to standard error, and in persistent mode, whose standard
error is the null device, for every line filter, after every run of earlier jobs, whatever they
left in the pipes. -/
theorem fitting_payload_never_deadlocks (c : Caps) (hout : 0 < c.stdout) (p : LineCommand)
    (skip : Bytes → Bool) (data : Bytes) :
    (data.length ≤ c.stdin → (∀ l, p.warn l = []) →
      ∀ s, Sys.Reaches c p (processJobWithNewSubprocess data) s → ¬ Deadlock c s) ∧
    ∀ ds rs s, Jobs c p skip Sys.started ds rs s →
      s.stdin.buf.length + (withNewline data).length ≤ c.stdin →
      ∀ t, Sys.Reaches c p (s.nextJob skip data) t → ¬ Deadlock c t := by
  refine ⟨fun hlen hw _ hs =>
    ((calm_start hlen).of_reaches (fun l => by simp [errFor, hw]) hs).not_deadlock hout,
    fun ds rs s hs hroom t ht => ?_⟩
  have hb := hs.between Between.started
  have hcalm : Calm c (.persistent (readCount skip data)) (s.nextJob skip data) :=
    ⟨rfl, hroom, hb.err_nil, fun h => by simp [Sys.nextJob, hb.stdout_open] at h, nofun⟩
  exact (hcalm.of_reaches (fun l => by simp [errFor]) ht).not_deadlock hout

/-- A line through `cat` with room for four bytes in standard input and one in standard output,
as the only job in EOF mode and as the first job in persistent mode. -/
theorem fitting_payload_never_deadlocks_cat :
    0 < (⟨4, 1, 1⟩ : Caps).stdout ∧
    (∀ s, Sys.Reaches ⟨4, 1, 1⟩ LineCommand.cat (processJobWithNewSubprocess [97, 10]) s →
      ¬ Deadlock ⟨4, 1, 1⟩ s) ∧
    ∀ t, Sys.Reaches ⟨4, 1, 1⟩ LineCommand.cat (Sys.started.nextJob (fun l => l.isEmpty) [97, 10]) t →
      ¬ Deadlock ⟨4, 1, 1⟩ t :=
  ⟨by decide,
    (fitting_payload_never_deadlocks ⟨4, 1, 1⟩ (by decide) LineCommand.cat (fun l => l.isEmpty)
      [97, 10]).1 (by decide) (fun _ => rfl),
    (fitting_payload_never_deadlocks ⟨4, 1, 1⟩ (by decide) LineCommand.cat (fun l => l.isEmpty)
      [97, 10]).2 [] [] _ (.nil _) (by decide)⟩

end Gearhulk
