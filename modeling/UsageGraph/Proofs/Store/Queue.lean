import UsageGraph.Proofs.Store.Registry

/-! # The import queue

A repository gets into the queue when it is first heard of, and leaves it for good when it is marked.

* `Store.Stage`: a repository is unknown, pending or imported. `Store.stage_apply` says how each
  operation moves it.
* `Store.Registered`, `Store.Marked`: the same, told by the operations of a session.
  `Store.stage_run` says that they tell the same.
* `Store.mem_pending_iff`: the queue holds the repositories that are pending.
* `Store.Queue`, `Store.queue_run`: what the queue does in every session.
-/

namespace UsageGraph
set_option autoImplicit false

namespace Store

/-! ## Stages -/

inductive Stage where
  | unknown
  | pending
  | imported
  deriving DecidableEq, Repr

namespace Stage

def ofRow : Option RepositoryRow → Stage
  | none => unknown
  | some row => if row.imported then imported else pending

def register : Stage → Stage
  | unknown | pending => pending
  | imported => imported

def mark : Stage → Stage
  | unknown => unknown
  | pending | imported => imported

@[simp] theorem register_ne (stage : Stage) : stage.register ≠ unknown := by
  cases stage <;> nofun

@[simp] theorem register_eq_imported {stage : Stage} :
    stage.register = imported ↔ stage = imported := by
  cases stage <;> simp [register]

@[simp] theorem mark_eq_unknown {stage : Stage} : stage.mark = unknown ↔ stage = unknown := by
  cases stage <;> simp [mark]

@[simp] theorem mark_eq_imported {stage : Stage} : stage.mark = imported ↔ stage ≠ unknown := by
  cases stage <;> simp [mark]

end Stage

def stage (s : Store) (repo : String) : Stage := .ofRow (s.repositories.get? repo)

namespace Operation

def Registers (repo : String) : Operation → Prop
  | enqueue r | upsert r _ => r.id.fullName = repo
  | replaceReferences _ _ | replaceIntervals _ _ | markImported _ => False

def move (repo : String) : Operation → Stage → Stage
  | enqueue r, stage | upsert r _, stage => if r.id.fullName = repo then stage.register else stage
  | markImported marked, stage => if marked = repo then stage.mark else stage
  | replaceReferences _ _, stage | replaceIntervals _ _, stage => stage

theorem move_cases (repo : String) (op : Operation) :
    (op.Registers repo ∧ op ≠ markImported repo ∧ op.move repo = Stage.register) ∨
    (¬op.Registers repo ∧ op = markImported repo ∧ op.move repo = Stage.mark) ∨
    (¬op.Registers repo ∧ op ≠ markImported repo ∧ op.move repo = id) := by
  cases op with
  | enqueue r =>
    by_cases hid : r.id.fullName = repo
    · exact .inl ⟨hid, nofun, funext fun _ => if_pos hid⟩
    · exact .inr (.inr ⟨hid, nofun, funext fun _ => if_neg hid⟩)
  | upsert r l =>
    by_cases hid : r.id.fullName = repo
    · exact .inl ⟨hid, nofun, funext fun _ => if_pos hid⟩
    · exact .inr (.inr ⟨hid, nofun, funext fun _ => if_neg hid⟩)
  | replaceReferences other rs => exact .inr (.inr ⟨id, nofun, rfl⟩)
  | replaceIntervals other is => exact .inr (.inr ⟨id, nofun, rfl⟩)
  | markImported marked =>
    by_cases hid : marked = repo
    · exact .inr (.inl ⟨id, congrArg markImported hid, funext fun _ => if_pos hid⟩)
    · exact .inr (.inr ⟨id, fun h => hid (markImported.inj h), funext fun _ => if_neg hid⟩)

end Operation

section
variable (s : Store) (repo : String)

theorem stage_eq_unknown : s.stage repo = .unknown ↔ ¬s.repositories.contains repo := by
  rw [stage, Table.contains]
  cases s.repositories.get? repo with
  | none => simp [Stage.ofRow]
  | some row => cases himported : row.imported <;> simp [Stage.ofRow, himported]

theorem stage_apply (op : Operation) : (op.apply s).stage repo = op.move repo (s.stage repo) := by
  rw [stage, stage, get?_apply]
  cases op with
  | enqueue r =>
    rw [Operation.row, Operation.move]
    split
    · cases s.repositories.get? repo with
      | none => rfl
      | some old => cases himported : old.imported <;> simp [Stage.ofRow, himported, Stage.register]
    · rfl
  | upsert r l =>
    rw [Operation.row, Operation.move]
    split
    · cases s.repositories.get? repo with
      | none => rfl
      | some old =>
        -- A refreshed row keeps its flag.
        have hrow : RepositoryRow.imported (RepositoryRow.refresh old (repositoryRow r l)) =
            old.imported := rfl
        cases himported : old.imported <;> simp [Stage.ofRow, hrow, himported, Stage.register]
    · rfl
  | replaceReferences other rs => rfl
  | replaceIntervals other is => rfl
  | markImported marked =>
    rw [Operation.row, Operation.move]
    split
    · cases s.repositories.get? repo with
      | none => rfl
      | some old => cases himported : old.imported <;> simp [Stage.ofRow, himported, Stage.mark]
    · rfl

end

/-! ## Sessions -/

/-- A session has added the repository or has told about it. -/
def Registered (ops : List Operation) (repo : String) : Prop := ∃ op ∈ ops, op.Registers repo

/-- A session has marked the repository when it was registered already. -/
def Marked (ops : List Operation) (repo : String) : Prop :=
  ∃ earlier later, ops = earlier ++ .markImported repo :: later ∧ Registered earlier repo

section
variable {ops : List Operation} {op : Operation} {repo : String}

theorem registered_concat :
    Registered (ops ++ [op]) repo ↔ Registered ops repo ∨ op.Registers repo := by
  simp [Registered, or_and_right, exists_or]

theorem marked_concat : Marked (ops ++ [op]) repo ↔
    Marked ops repo ∨ op = .markImported repo ∧ Registered ops repo := by
  constructor
  · rintro ⟨earlier, later, hops, hregistered⟩
    rcases List.eq_nil_or_concat later with rfl | ⟨later, last, rfl⟩
    · obtain ⟨rfl, hop⟩ := List.append_inj' hops rfl
      exact .inr ⟨List.head_eq_of_cons_eq hop, hregistered⟩
    · rw [List.concat_eq_append, ← List.cons_append, ← List.append_assoc] at hops
      exact .inl ⟨earlier, later, (List.append_inj' hops rfl).1, hregistered⟩
  · rintro (⟨earlier, later, rfl, hregistered⟩ | ⟨rfl, hregistered⟩)
    · exact ⟨earlier, later ++ [op], by rw [List.append_assoc, List.cons_append], hregistered⟩
    · exact ⟨ops, [], rfl, hregistered⟩

theorem Marked.append (h : Marked ops repo) (later : List Operation) :
    Marked (ops ++ later) repo := by
  obtain ⟨before, after, rfl, hregistered⟩ := h
  exact ⟨before, after ++ later, by rw [List.append_assoc, List.cons_append], hregistered⟩

end

section
variable (ops : List Operation) (repo : String)

/-- The stage of a repository tells what the session has done to it. -/
theorem stage_run : ((run ops).stage repo = .unknown ↔ ¬Registered ops repo) ∧
    ((run ops).stage repo = .imported ↔ Marked ops repo) := by
  induction ops using List.reverseRecOn with
  | nil => simp [run, stage, Stage.ofRow, Store.empty, Registered, Marked]
  | append_singleton ops op ih =>
    obtain ⟨hunknown, himported⟩ := ih
    rw [run_concat, stage_apply, registered_concat, marked_concat, ← himported]
    rcases op.move_cases repo with ⟨hregisters, hmark, hmove⟩ | ⟨hregisters, rfl, hmove⟩ |
      ⟨hregisters, hmark, hmove⟩
    · simp [hmove, hregisters, hmark]
    · -- A mark counts only if the repository is registered, and then it is imported either way.
      have hmarked : (run ops).stage repo = .imported → Registered ops repo := by
        intro h
        by_contra hnot
        rw [hunknown.mpr hnot] at h
        cases h
      simp [hmove, hregisters, hunknown, or_iff_right_of_imp hmarked]
    · simp [hmove, hregisters, hmark, hunknown]

theorem registered_iff : Registered ops repo ↔ (run ops).stage repo ≠ .unknown :=
  (not_iff_comm.mp (stage_run ops repo).1.symm).symm

end

/-! ## The queue -/

theorem mem_pending_iff {s : Store} (h : s.Keyed) {repo : String} :
    repo ∈ s.pending.map (fun r => r.id.fullName) ↔ s.stage repo = .pending := by
  rw [List.mem_map, stage]
  constructor
  · rintro ⟨r, hr, rfl⟩
    obtain ⟨key, row, hget, himported, rfl⟩ := mem_pending.mp hr
    have hkey : key = row.id.fullName := h key row hget
    subst hkey
    change Stage.ofRow (s.repositories.get? row.id.fullName) = _
    rw [hget, Stage.ofRow, himported]
    rfl
  · intro hstage
    cases hget : s.repositories.get? repo with
    | none =>
      rw [hget] at hstage
      cases hstage
    | some row =>
      have himported : row.imported = false := by
        rw [hget, Stage.ofRow] at hstage
        cases himported : row.imported with
        | false => rfl
        | true =>
          rw [himported] at hstage
          cases hstage
      exact ⟨_, mem_pending.mpr ⟨repo, row, hget, himported, rfl⟩, (h repo row hget).symm⟩

theorem nodup_pending {s : Store} (h : s.Keyed) :
    (s.pending.map fun r => r.id.fullName).Nodup := by
  have hkeys : ∀ p ∈ s.repositories.entries,
      (RepositoryRow.toRepository p.2).id.fullName = p.1 := fun p hp =>
    (h p.1 p.2 (Table.mem_entries.mp hp)).symm
  have hnames : (s.repositories.entries.map fun p =>
      (RepositoryRow.toRepository p.2).id.fullName).Nodup := by
    rw [List.map_congr_left hkeys]
    exact Table.nodup_keys _
  rw [pending, List.map_map]
  exact ((List.mergeSort_perm _ _).map _).nodup_iff.mpr
    (hnames.sublist (List.filter_sublist.map _))

/-- What the queue does after a session. Repositories are told apart by their full names. -/
structure ImportQueue (ops : List Operation) : Prop where
  enqueue : ∀ r, ((run ops).enqueue r).1 = true ↔ ¬Registered ops r.id.fullName
  nodup : ((run ops).pending.map fun r => r.id.fullName).Nodup
  pending : ∀ repo, repo ∈ (run ops).pending.map (fun r => r.id.fullName) ↔
    Registered ops repo ∧ ¬Marked ops repo
  /-- Whatever is done later, a repository that was marked stays out of the queue. -/
  never_again : ∀ repo later, Marked ops repo →
    repo ∉ (run (ops ++ later)).pending.map fun r => r.id.fullName
  mark_unknown : ∀ repo, ¬Registered ops repo → (run ops).markImported repo = run ops

theorem mem_pending_run (ops : List Operation) (repo : String) :
    repo ∈ (run ops).pending.map (fun r => r.id.fullName) ↔
      Registered ops repo ∧ ¬Marked ops repo := by
  rw [mem_pending_iff (keyed_run ops), registered_iff, ← (stage_run ops repo).2]
  cases (run ops).stage repo <;> simp

theorem importQueue_run (ops : List Operation) : ImportQueue ops where
  enqueue r := by
    rw [← (stage_run ops r.id.fullName).1, stage_eq_unknown, Store.enqueue]
    split
    · next hknown => simp [hknown]
    · next hnew => simp [hnew]
  nodup := nodup_pending (keyed_run ops)
  pending := mem_pending_run ops
  never_again repo later hmarked hpending :=
    ((mem_pending_run (ops ++ later) repo).mp hpending).2 (hmarked.append later)
  mark_unknown repo hnot := by
    have hunknown := (stage_eq_unknown _ repo).mp ((stage_run ops repo).1.mpr hnot)
    rw [Store.markImported]
    cases hget : (run ops).repositories.get? repo with
    | none => rfl
    | some row => exact absurd (Table.contains_iff.mpr ⟨row, hget⟩) hunknown

/-- A mark before the repository is known does not count. What is told after a mark does not undo
it. -/
example : (run [.markImported "a/b", .enqueue (.ofId ⟨"a", "b"⟩), .enqueue (.ofId ⟨"c", "d"⟩),
    .markImported "c/d", .upsert (.ofId ⟨"c", "d"⟩) ⟨some 1, some 2⟩]).pending =
      [.ofId ⟨"a", "b"⟩] := by
  decide +kernel

end Store
end UsageGraph
