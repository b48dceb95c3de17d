import Mathlib.Data.List.Dedup
import Mathlib.Data.List.Induction
import UsageGraph.Proofs.Crawl.Queue
import UsageGraph.Proofs.Lists

/-! # The course of a queue

* `StartsProgram`, `isEntryFile_iff`: the files that start a program, in any case of their letters.
* `CompileQueue.Precedes`, `CompileQueue.pairwise_ofFiles`: the order in which the files wait.
* `CompileQueue.Call`, `CompileQueue.run`: what is asked of a queue, and what it comes to.
* `CompileQueue.Account`: what is left of the queue, and what counts as resolved. Each call keeps
  the account.
* `CompileQueue.every_course_adds_up`: the order at the start, and what every course comes to.
-/

namespace UsageGraph
set_option autoImplicit false

/-! ## Files that start a program -/

/-- The letters of a name in lower case, each of them in any case. -/
def AnyCase (name : String) (written : List Char) : Prop :=
  List.Forall₂ (fun c d => d = c ∨ d = c.toUpper) name.toList written

/-- The stem of the file is one of three names. -/
def StartsProgram (file : String) : Prop :=
  ∃ stem, Path.stem? file = some stem ∧ ∃ name ∈ ["main", "index", "app"], AnyCase name stem

theorem toNat_toLower (c : Char) : c.toLower.toNat =
    if 65 ≤ c.toNat ∧ c.toNat ≤ 90 then c.toNat + 32 else c.toNat := by
  delta Char.toLower
  split
  · next h =>
    have hc : 65 ≤ c.toNat ∧ c.toNat ≤ 90 := h
    have hsum : (c.val + 32).toNat = (c.toNat + 32) % 2 ^ 32 := UInt32.toNat_add _ _
    rw [if_pos hc]
    refine hsum.trans ?_
    omega
  · next h => exact (if_neg (c := 65 ≤ c.toNat ∧ c.toNat ≤ 90) h).symm

theorem toNat_toUpper (c : Char) : c.toUpper.toNat =
    if 97 ≤ c.toNat ∧ c.toNat ≤ 122 then c.toNat - 32 else c.toNat := by
  delta Char.toUpper
  split
  · next h =>
    have hc : 97 ≤ c.toNat ∧ c.toNat ≤ 122 := h
    have hsum : (c.val + 4294967264).toNat = (c.toNat + 4294967264) % 2 ^ 32 :=
      UInt32.toNat_add _ _
    rw [if_pos hc]
    refine hsum.trans ?_
    omega
  · next h => exact (if_neg (c := 97 ≤ c.toNat ∧ c.toNat ≤ 122) h).symm

theorem toLower_eq_iff {c d : Char} (hc : c.isLower = true) :
    d.toLower = c ↔ d = c ∨ d = c.toUpper := by
  have hrange : 97 ≤ c.toNat ∧ c.toNat ≤ 122 := by
    obtain ⟨hle, hge⟩ := Bool.and_eq_true_iff.mp hc
    exact ⟨of_decide_eq_true hle, of_decide_eq_true hge⟩
  rw [← Char.toNat_inj, ← Char.toNat_inj, ← Char.toNat_inj, toNat_toLower, toNat_toUpper,
    if_pos hrange]
  split <;> omega

theorem map_toLower_eq_iff {name : String} (h : ∀ c ∈ name.toList, c.isLower = true)
    {stem : List Char} : stem.map Char.toLower = name.toList ↔ AnyCase name stem := by
  rw [AnyCase]
  generalize name.toList = letters at h
  induction letters generalizing stem with
  | nil => simp
  | cons c letters ih =>
    obtain ⟨hc, hletters⟩ := List.forall_mem_cons.mp h
    cases stem with
    | nil => simp
    | cons d stem =>
      rw [List.map_cons, List.cons.injEq, List.forall₂_cons, toLower_eq_iff hc, ih hletters]

theorem isEntryFile_iff {file : String} : isEntryFile file = true ↔ StartsProgram file := by
  have hnames : ∀ name ∈ ["main", "index", "app"], ∀ c ∈ name.toList, c.isLower = true := by
    simp only [← List.all_eq_true]
    decide
  have hstems : entryStems = ["main", "index", "app"].map String.toList := rfl
  rw [isEntryFile, StartsProgram]
  cases hstem : Path.stem? file with
  | none => simp
  | some stem =>
    simp only [decide_eq_true_eq, hstems, List.mem_map, Option.some.injEq, exists_eq_left']
    constructor
    · rintro ⟨name, hname, h⟩
      exact ⟨name, hname, (map_toLower_eq_iff (hnames name hname)).mp h.symm⟩
    · rintro ⟨name, hname, h⟩
      exact ⟨name, hname, ((map_toLower_eq_iff (hnames name hname)).mpr h).symm⟩

/-! ## The order of the files -/

theorem pairwise_firstOccurrences (xs : List String) :
    (firstOccurrences xs).Pairwise fun x y => xs.idxOf x < xs.idxOf y := by
  induction xs with
  | nil => exact .nil
  | cons x xs ih =>
    rw [firstOccurrences, List.pairwise_cons]
    have hne : ∀ y ∈ (firstOccurrences xs).filter (· ≠ x),
        (x :: xs).idxOf y = xs.idxOf y + 1 := by
      intro y hy
      have hyx : y ≠ x := of_decide_eq_true (List.mem_filter.mp hy).2
      exact List.idxOf_cons_ne xs (Ne.symm hyx)
    constructor
    · intro y hy
      rw [hne y hy, List.idxOf_cons_self]
      exact Nat.succ_pos _
    · refine (ih.filter _).imp_of_mem fun {y z} hy hz hlt => ?_
      rw [hne y hy, hne z hz]
      exact Nat.succ_lt_succ hlt

namespace CompileQueue

/-- The first file has its turn before the second one: it starts a program and the other does not,
or they are alike in this and it is named first. -/
def Precedes (files : List String) (f g : String) : Prop :=
  StartsProgram f ∧ ¬StartsProgram g ∨
    (StartsProgram f ↔ StartsProgram g) ∧ files.idxOf f < files.idxOf g

theorem precedes_of_idxOf {files : List String} {f g : String} (hf : f ∈ files) (hg : g ∈ files)
    (h : (files.filter isEntryFile ++ files.filter fun file => !isEntryFile file).idxOf f <
      (files.filter isEntryFile ++ files.filter fun file => !isEntryFile file).idxOf g) :
    Precedes files f g := by
  have hentry : ∀ {x}, x ∈ files → isEntryFile x = true → x ∈ files.filter isEntryFile :=
    fun hx he => List.mem_filter.mpr ⟨hx, he⟩
  have hother : ∀ {x}, isEntryFile x = false → x ∉ files.filter isEntryFile := by
    intro x he hx
    rw [(List.mem_filter.mp hx).2] at he
    cases he
  rw [Precedes, ← isEntryFile_iff, ← isEntryFile_iff]
  cases hef : isEntryFile f <;> cases heg : isEntryFile g
  · rw [List.idxOf_append_of_notMem (hother hef), List.idxOf_append_of_notMem (hother heg),
      Nat.add_lt_add_iff_left, idxOf_filter_lt_iff (by simp [hef]) (by simp [heg])] at h
    exact .inr ⟨Iff.rfl, h⟩
  · -- The other file starts a program, and stands before all that do not.
    rw [List.idxOf_append_of_notMem (hother hef), List.idxOf_append_of_mem (hentry hg heg)] at h
    have hlt := List.idxOf_lt_length_of_mem (hentry hg heg)
    omega
  · exact .inl ⟨rfl, Bool.false_ne_true⟩
  · rw [List.idxOf_append_of_mem (hentry hf hef), List.idxOf_append_of_mem (hentry hg heg),
      idxOf_filter_lt_iff hef heg] at h
    exact .inr ⟨Iff.rfl, h⟩

theorem pairwise_ofFiles (files : List String) :
    (ofFiles files).pending.Pairwise (Precedes files) := by
  refine (pairwise_firstOccurrences _).imp_of_mem fun {f g} hf hg h => ?_
  exact precedes_of_idxOf (mem_ofFiles.mp hf) (mem_ofFiles.mp hg) h

theorem perm_ofFiles (files : List String) : (ofFiles files).pending.Perm files.dedup := by
  refine (List.perm_ext_iff_of_nodup (consistent_ofFiles files).nodup
    (List.nodup_dedup files)).mpr fun file => ?_
  rw [mem_ofFiles, List.mem_dedup]

/-! ## Courses -/

/-- What is asked of a queue. -/
inductive Call where
  | pop
  | resolve (files : List String)

/-- A queue, and the files that were taken from it, the first one first. -/
structure Course where
  queue : CompileQueue
  popped : List String

namespace Call

def apply (c : Course) : Call → Course
  | pop =>
    match c.queue.pop? with
    | some (file, rest) => ⟨rest, c.popped ++ [file]⟩
    | none => c
  | resolve files => ⟨c.queue.resolve files, c.popped⟩

/-- The files that a call resolves. -/
def resolves : Call → List String
  | pop => []
  | resolve files => files

end Call

def run (files : List String) (calls : List Call) : Course :=
  calls.foldl Call.apply ⟨ofFiles files, []⟩

/-- What some calls have resolved. -/
def resolvedBy (calls : List Call) : List String := calls.flatMap Call.resolves

section
variable (files : List String) (calls : List Call) (call : Call)

theorem run_concat : run files (calls ++ [call]) = call.apply (run files calls) := by
  rw [run, List.foldl_append]
  rfl

theorem resolvedBy_concat : resolvedBy (calls ++ [call]) = resolvedBy calls ++ call.resolves := by
  rw [resolvedBy, List.flatMap_append, List.flatMap_singleton]
  rfl

end

theorem mem_resolvedBy {calls : List Call} {file : String} :
    file ∈ resolvedBy calls ↔ ∃ files, Call.resolve files ∈ calls ∧ file ∈ files := by
  rw [resolvedBy, List.mem_flatMap]
  constructor
  · rintro ⟨call, hcall, hfile⟩
    cases call with
    | pop => cases hfile
    | resolve files => exact ⟨files, hcall, hfile⟩
  · rintro ⟨files, hcall, hfile⟩
    exact ⟨_, hcall, hfile⟩

/-- What a course has come to: the files were taken in the order in which they waited, and those
that were neither taken nor resolved are left. -/
structure Account (initial resolved : List String) (c : Course) : Prop where
  turns : (c.popped ++ c.queue.pending).Sublist initial
  pending : c.queue.pending = initial.filter fun f => f ∉ c.popped ∧ f ∉ resolved
  resolved : c.queue.resolved = resolved

variable {initial resolved : List String} {c : Course}

theorem Account.pop (hinitial : initial.Nodup) (h : Account initial resolved c) :
    Account initial resolved (Call.pop.apply c) := by
  rw [Call.apply]
  cases hpop : c.queue.pop? with
  | none => exact h
  | some next =>
    obtain ⟨file, rest⟩ := next
    obtain ⟨hpending, hresolved⟩ := pop?_eq_some hpop
    have hfile : file ∉ rest.pending := by
      have hnodup := hinitial.sublist ((List.sublist_append_right _ _).trans h.turns)
      rw [hpending, List.nodup_cons] at hnodup
      exact hnodup.1
    refine ⟨?_, ?_, hresolved.trans h.resolved⟩
    · rw [List.append_assoc, List.singleton_append, ← hpending]
      exact h.turns
    · -- Of the files that were left, only the one that is taken now is taken.
      have hother : ∀ f ∈ rest.pending, decide (f ≠ file) = true := by
        intro f hf
        rw [decide_eq_true_eq]
        rintro rfl
        exact hfile hf
      have hleft : rest.pending = c.queue.pending.filter (· ≠ file) := by
        rw [hpending, List.filter_cons_of_neg (by simp), List.filter_eq_self.mpr hother]
      rw [hleft, h.pending, List.filter_filter]
      refine List.filter_congr fun f _ => ?_
      rw [← Bool.decide_and, decide_eq_decide, List.mem_append, List.mem_singleton]
      tauto

theorem Account.resolve (files : List String) (h : Account initial resolved c) :
    Account initial (resolved ++ files) ((Call.resolve files).apply c) := by
  have hpending : (c.queue.resolve files).pending =
      c.queue.pending.filter fun f => f ∉ resolved ++ files := by
    rw [CompileQueue.resolve, h.resolved]
  refine ⟨?_, ?_, congrArg (· ++ files) h.resolved⟩
  · refine List.Sublist.trans ?_ h.turns
    exact (List.Sublist.refl c.popped).append (hpending ▸ List.filter_sublist)
  · refine hpending.trans ?_
    rw [h.pending, List.filter_filter]
    refine List.filter_congr fun f _ => ?_
    rw [← Bool.decide_and, decide_eq_decide, List.mem_append, Call.apply]
    tauto

/-- Every course of a queue has an account. -/
theorem account_run (files : List String) (calls : List Call) :
    Account (ofFiles files).pending (resolvedBy calls) (run files calls) := by
  have hinitial := (consistent_ofFiles files).nodup
  induction calls using List.reverseRecOn with
  | nil =>
    refine ⟨List.Sublist.refl _, ?_, rfl⟩
    exact (List.filter_eq_self.mpr fun f _ => by simp [run, resolvedBy]).symm
  | append_singleton calls call ih =>
    rw [run_concat, resolvedBy_concat]
    cases call with
    | pop =>
      rw [Call.resolves, List.append_nil]
      exact ih.pop hinitial
    | resolve named => exact ih.resolve named

/-- What a course comes to, told by the files and the calls alone. -/
structure AddsUp (files : List String) (calls : List Call) (c : Course) : Prop where
  turns : (c.popped ++ c.queue.pending).Sublist (ofFiles files).pending
  nodup : c.queue.pending.Nodup
  unresolved : ∀ f ∈ c.queue.pending, c.queue.isResolved f = false
  waiting : ∀ f, f ∈ c.queue.pending ↔
    f ∈ files ∧ f ∉ c.popped ∧ ∀ named, Call.resolve named ∈ calls → f ∉ named
  resolved : ∀ f, c.queue.isResolved f = true ↔ ∃ named, Call.resolve named ∈ calls ∧ f ∈ named

theorem addsUp_run (files : List String) (calls : List Call) :
    AddsUp files calls (run files calls) := by
  have haccount := account_run files calls
  have hwaiting : ∀ f, f ∈ (run files calls).queue.pending ↔
      f ∈ files ∧ f ∉ (run files calls).popped ∧ f ∉ resolvedBy calls := by
    intro f
    rw [haccount.pending, List.mem_filter, decide_eq_true_eq, mem_ofFiles]
  have hresolved : ∀ f, (run files calls).queue.isResolved f = true ↔ f ∈ resolvedBy calls := by
    intro f
    rw [isResolved, haccount.resolved, decide_eq_true_eq]
  refine ⟨haccount.turns, ?_, fun f hf => ?_, fun f => ?_, fun f => ?_⟩
  · rw [haccount.pending]
    exact (consistent_ofFiles files).nodup.filter _
  · rw [Bool.eq_false_iff, Ne, hresolved]
    exact ((hwaiting f).mp hf).2.2
  · rw [hwaiting, mem_resolvedBy]
    simp only [not_exists, not_and]
  · rw [hresolved, mem_resolvedBy]

/-- A queue begins with every file once, those that start a program in front and then in the order
in which they are named. Whatever is asked of it, the files have their turns in this order, those
wait that were neither taken nor resolved, and resolved are those that a call has named. -/
theorem every_course_adds_up (files : List String) :
    (ofFiles files).pending.Perm files.dedup ∧ (ofFiles files).pending.Pairwise (Precedes files) ∧
      ∀ calls, AddsUp files calls (run files calls) :=
  ⟨perm_ofFiles files, pairwise_ofFiles files, addsUp_run files⟩

end CompileQueue
end UsageGraph
