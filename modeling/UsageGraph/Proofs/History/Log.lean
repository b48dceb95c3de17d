import Mathlib.Data.List.Forall2
import UsageGraph.History.Commit
import UsageGraph.Proofs.Lists
import UsageGraph.Proofs.Text.Splitting

/-! # Commits of a log

* `WholeNumber`: the whole numbers as they are written, with a sign or without.
* `seconds?_eq_some`: just those that fit 64 bits are read.
* `Logs`: the revision and the seconds that a line is made of.
* `Lists`: a log that is read line by line. `readLog_append_whole` puts logs one below the other.
* `Stamped`, `StampedAround`: the time of a commit, and what it is where products wrap around.
* `parseLog_exact`: which commits are read off a log, and at which times.
-/

namespace UsageGraph
open Text
set_option autoImplicit false

/-! ## Whole numbers -/

/-- A text of digits and its value. -/
structure Digits (s : List Char) (n : Nat) : Prop where
  ne_nil : s ≠ []
  digits : ∀ c ∈ s, c.isDigit = true
  value : Nat.ofDigitChars 10 s 0 = n

/-- A whole number as it is written: digits, behind a sign or without one. -/
inductive WholeNumber : List Char → Int → Prop
  | plain {s : List Char} {n : Nat} : Digits s n → WholeNumber s n
  | plus {s : List Char} {n : Nat} : Digits s n → WholeNumber ('+' :: s) n
  | minus {s : List Char} {n : Nat} : Digits s n → WholeNumber ('-' :: s) (-n)

variable {s : List Char} {v : Int}

theorem unsigned?_eq_some {n : Nat} : unsigned? s = some n ↔ Digits s n := by
  rw [unsigned?, Option.ite_none_right_eq_some, Option.some_inj, List.all_eq_true]
  exact ⟨fun ⟨⟨hne, hdigits⟩, hvalue⟩ => ⟨hne, hdigits, hvalue⟩,
    fun h => ⟨⟨h.ne_nil, h.digits⟩, h.value⟩⟩

theorem Digits.head_ne {c : Char} {n : Nat} (hc : c.isDigit = false) : ¬Digits (c :: s) n := by
  intro h
  rw [h.digits c List.mem_cons_self] at hc
  cases hc

theorem wholeNumber_minus : WholeNumber ('-' :: s) v ↔ ∃ n, Digits s n ∧ -(n : Int) = v := by
  constructor
  · intro h
    cases h with
    | plain h => exact absurd h (Digits.head_ne rfl)
    | minus h => exact ⟨_, h, rfl⟩
  · rintro ⟨n, h, rfl⟩
    exact .minus h

theorem wholeNumber_plus : WholeNumber ('+' :: s) v ↔ ∃ n, Digits s n ∧ (n : Int) = v := by
  constructor
  · intro h
    cases h with
    | plain h => exact absurd h (Digits.head_ne rfl)
    | plus h => exact ⟨_, h, rfl⟩
  · rintro ⟨n, h, rfl⟩
    exact .plus h

theorem wholeNumber_plain (hminus : ∀ t, s ≠ '-' :: t) (hplus : ∀ t, s ≠ '+' :: t) :
    WholeNumber s v ↔ ∃ n, Digits s n ∧ (n : Int) = v := by
  constructor
  · intro h
    cases h with
    | plain h => exact ⟨_, h, rfl⟩
    | plus h => exact absurd rfl (hplus _)
    | minus h => exact absurd rfl (hminus _)
  · rintro ⟨n, h, rfl⟩
    exact .plain h

theorem seconds?_eq_some : seconds? s = some v ↔ WholeNumber s v ∧ Fits64 v := by
  unfold seconds?
  rw [Option.filter_eq_some_iff, decide_eq_true_iff]
  refine and_congr_left fun _ => ?_
  have hcast : ∀ (s : List Char) (a : Int),
      (do let n ← unsigned? s; pure (n : Int)) = some a ↔ ∃ n, Digits s n ∧ (n : Int) = a := by
    intro s a
    simp only [Option.bind_eq_bind, Option.bind_eq_some_iff, Option.pure_def, Option.some_inj,
      unsigned?_eq_some]
  split
  · next s =>
    simp only [Option.map_eq_some_iff, hcast, exists_exists_and_eq_and, wholeNumber_minus]
  · next s =>
    simp only [Option.map_eq_some_iff, hcast, exists_exists_and_eq_and, wholeNumber_plus]
  · next s hminus hplus =>
    simp only [Option.map_eq_some_iff, hcast, exists_exists_and_eq_and,
      wholeNumber_plain hminus hplus]

/-! ## Milliseconds -/

theorem toInt_millis (v : Int) :
    (Int64.ofInt v * millisPerSecond).toInt = (1000 * v).bmod UInt64.size := by
  rw [Int64.toInt_mul, Int64.toInt_ofInt, Int.bmod_mul_bmod, Int.mul_comm]
  rfl

theorem bmod_eq_self_iff : v.bmod UInt64.size = v ↔ Fits64 v := by
  have hmin : Int64.minValue.toInt = -9223372036854775808 := by decide
  have hmax : Int64.maxValue.toInt = 9223372036854775807 := by decide
  rw [Fits64, hmin, hmax]
  constructor
  · intro h
    have hle : -((UInt64.size : Int) / 2) ≤ v.bmod UInt64.size := Int.le_bmod (by decide)
    have hlt : v.bmod UInt64.size < ((UInt64.size : Int) + 1) / 2 := Int.bmod_lt (by decide)
    rw [h, UInt64.size] at hle hlt
    omega
  · rintro ⟨hle, hlt⟩
    rw [UInt64.size]
    exact Int.bmod_eq_of_le (by omega) (by omega)

/-- Milliseconds are a thousand for each second as long as 64 bits have room for them. -/
theorem toInt_millis_eq_iff (v : Int) :
    (Int64.ofInt v * millisPerSecond).toInt = 1000 * v ↔ Fits64 (1000 * v) := by
  rw [toInt_millis, bmod_eq_self_iff]

theorem millis?_of_fits (o : Overflow) (h : Fits64 (1000 * v)) :
    ∃ time, millis? o v = some time ∧ time.toInt = 1000 * v := by
  refine ⟨_, if_neg fun hover => hover.2 h, ?_⟩
  exact (toInt_millis_eq_iff v).mpr h

theorem millis?_wraps (v : Int) : ∃ time, millis? .wraps v = some time ∧
    time.toInt = (1000 * v).bmod UInt64.size := by
  refine ⟨_, if_neg fun hover => ?_, toInt_millis v⟩
  cases hover.1

theorem millis?_panics (h : ¬Fits64 (1000 * v)) : millis? .panics v = none := if_pos ⟨rfl, h⟩

theorem toInt_of_millis? {o : Overflow} {time : Instant} (h : millis? o v = some time) :
    time.toInt = 1000 * v ↔ Fits64 (1000 * v) := by
  rw [millis?] at h
  split at h
  · cases h
  · cases h
    exact toInt_millis_eq_iff v

/-! ## The commit of a line -/

/-- The line is about a commit. Apart from blanks around it, it is the revision, a space and the
seconds, which may have blanks around them and fit 64 bits. -/
structure Logs (line hash : String) (seconds : Int) : Prop where
  ne_empty : hash ≠ ""
  whole : ' ' ∉ hash.toList
  layout : ∃ rest, trimChars line.toList = hash.toList ++ ' ' :: rest ∧
    WholeNumber (trimChars rest) seconds
  fits : Fits64 seconds

variable {line hash : String} {seconds : Int}

theorem readLogLine?_eq_some :
    readLogLine? line = some (hash, seconds) ↔ Logs line hash seconds := by
  simp only [readLogLine?, Option.bind_eq_bind, Option.bind_eq_some_iff, Option.pure_def,
    Option.some_inj, Prod.mk.injEq]
  constructor
  · rintro ⟨⟨hash', rest⟩, hcut, seconds', hseconds, rfl, rfl⟩
    obtain ⟨hline, hspace⟩ := splitOnce_eq_some hcut
    obtain ⟨hnumber, hfits⟩ := seconds?_eq_some.mp hseconds
    refine ⟨?_, ?_, ⟨rest, ?_, hnumber⟩, hfits⟩
    · -- Without a revision the trimmed line would begin with the space.
      intro hempty
      have hhash : hash' = [] := String.ofList_eq_empty_iff.mp hempty
      have hhead := isBlank_of_head?_trimChars (s := line.toList) ' '
      rw [hline, hhash] at hhead
      exact absurd (hhead rfl) (by decide)
    · rwa [String.toList_ofList]
    · rwa [String.toList_ofList]
  · rintro ⟨-, hspace, ⟨rest, hline, hnumber⟩, hfits⟩
    refine ⟨(hash.toList, rest), ?_, seconds, seconds?_eq_some.mpr ⟨hnumber, hfits⟩, ?_, rfl⟩
    · rw [hline, splitOnce_append hspace]
    · rw [String.ofList_toList]

/-- What is read off a line: the revision and the seconds, if it is made of them. -/
inductive LineReads (line : String) : List (String × Int) → Prop
  | commit {hash : String} {seconds : Int} : Logs line hash seconds →
      LineReads line [(hash, seconds)]
  | other : (∀ hash seconds, ¬Logs line hash seconds) → LineReads line []

theorem lineReads_readLogLine? (line : String) : LineReads line (readLogLine? line).toList := by
  cases hline : readLogLine? line with
  | some r => exact .commit (readLogLine?_eq_some.mp hline)
  | none =>
    refine .other fun hash seconds hlogs => ?_
    rw [readLogLine?_eq_some.mpr hlogs] at hline
    cases hline

/-! ## The lines of a log -/

theorem readLogLine?_dropReturn (s : List Char) :
    readLogLine? (String.ofList (dropReturn s)) = readLogLine? (String.ofList s) := by
  rw [readLogLine?, readLogLine?, String.toList_ofList, String.toList_ofList,
    trimChars_dropReturn]

/-- A log is read between its line feeds. -/
theorem readLog_eq (log : String) : readLog log =
    (splitAll '\n' log.toList).flatMap fun s => (readLogLine? (String.ofList s)).toList := by
  rw [readLog, lines, List.filterMap_eq_flatMap_toList, List.flatMap_map]
  exact flatMap_linesChars (f := fun s => (readLogLine? (String.ofList s)).toList)
    (by decide +kernel) (fun s => by rw [readLogLine?_dropReturn]) _

theorem readLog_append_feed (a b : String) :
    readLog (a ++ "\n" ++ b) = readLog a ++ readLog b := by
  rw [readLog_eq, splitAll_append_feed, List.flatMap_append, ← readLog_eq, ← readLog_eq]

/-- Every line of the text is ended. -/
def WholeLines (text : String) : Prop := text = "" ∨ ∃ front, text = front ++ "\n"

theorem readLog_empty : readLog "" = [] := by decide +kernel

theorem readLog_append_whole {text : String} (h : WholeLines text) (log : String) :
    readLog (text ++ log) = readLog text ++ readLog log := by
  rcases h with rfl | ⟨front, rfl⟩
  · rw [String.empty_append, readLog_empty, List.nil_append]
  · have hend : readLog (front ++ "\n") = readLog front := by
      have h := readLog_append_feed front ""
      rwa [String.append_empty, readLog_empty, List.append_nil] at h
    rw [readLog_append_feed, hend]

/-- The log is read line by line, in order. -/
def Lists (log : String) (rs : List (String × Int)) : Prop :=
  ∃ ls rss, log = join "\n" ls ∧ (∀ l ∈ ls, '\n' ∉ l.toList) ∧ List.Forall₂ LineReads ls rss ∧
    rs = rss.flatten

theorem lists_readLog (log : String) : Lists log (readLog log) := by
  refine ⟨(splitAll '\n' log.toList).map String.ofList, (splitAll '\n' log.toList).map fun s =>
    (readLogLine? (String.ofList s)).toList, (join_splitAll log).symm, ?_, ?_, ?_⟩
  · intro l hl
    obtain ⟨s, hs, rfl⟩ := List.mem_map.mp hl
    rw [String.toList_ofList]
    exact notMem_of_mem_splitAll hs
  · rw [List.forall₂_map_left_iff, List.forall₂_map_right_iff]
    exact List.forall₂_same.mpr fun s _ => lineReads_readLogLine? _
  · rw [readLog_eq, List.flatMap_def]

/-! ## The commits of a log -/

/-- The commit of a line, at the time that the line tells. -/
def Stamped (r : String × Int) (c : Commit) : Prop :=
  c.hash = r.1 ∧ c.timestamp.toInt = 1000 * r.2

/-- The commit of a line, at a time that has wrapped around. -/
def StampedAround (r : String × Int) (c : Commit) : Prop :=
  c.hash = r.1 ∧ c.timestamp.toInt = (1000 * r.2).bmod UInt64.size

variable {log : String} {o : Overflow} {rs : List (String × Int)} {cs : List Commit}

theorem ofLine?_eq_some {r : String × Int} {c : Commit} :
    Commit.ofLine? o r = some c ↔ c.hash = r.1 ∧ millis? o r.2 = some c.timestamp := by
  rw [Commit.ofLine?, Option.map_eq_some_iff]
  constructor
  · rintro ⟨time, htime, rfl⟩
    exact ⟨rfl, htime⟩
  · rintro ⟨hhash, htime⟩
    exact ⟨c.timestamp, htime, by rw [← hhash]⟩

theorem exists_mapM_ofLine? {R : String × Int → Commit → Prop}
    (h : ∀ r ∈ rs, ∃ c, Commit.ofLine? o r = some c ∧ R r c) :
    ∃ cs, rs.mapM (Commit.ofLine? o) = some cs ∧ List.Forall₂ R rs cs := by
  induction rs with
  | nil => exact ⟨[], rfl, .nil⟩
  | cons r rs ih =>
    obtain ⟨⟨c, hc, hR⟩, hrest⟩ := List.forall_mem_cons.mp h
    obtain ⟨cs, hcs, hall⟩ := ih hrest
    exact ⟨c :: cs, mapM_eq_some.mpr (.cons hc (mapM_eq_some.mp hcs)), .cons hR hall⟩

theorem exists_parseLog_of_fits (o : Overflow) (h : ∀ r ∈ readLog log, Fits64 (1000 * r.2)) :
    ∃ cs, parseLog o log = some cs ∧ List.Forall₂ Stamped (readLog log) cs := by
  refine exists_mapM_ofLine? fun r hr => ?_
  obtain ⟨time, htime, hexact⟩ := millis?_of_fits o (h r hr)
  exact ⟨⟨r.1, time⟩, ofLine?_eq_some.mpr ⟨rfl, htime⟩, rfl, hexact⟩

theorem exists_parseLog_wraps (log : String) :
    ∃ cs, parseLog .wraps log = some cs ∧ List.Forall₂ StampedAround (readLog log) cs := by
  refine exists_mapM_ofLine? fun r _ => ?_
  obtain ⟨time, htime, haround⟩ := millis?_wraps r.2
  exact ⟨⟨r.1, time⟩, ofLine?_eq_some.mpr ⟨rfl, htime⟩, rfl, haround⟩

theorem parseLog_panics {r : String × Int} (hr : r ∈ readLog log) (h : ¬Fits64 (1000 * r.2)) :
    parseLog .panics log = none := by
  refine Option.eq_none_iff_forall_ne_some.mpr fun cs hcs => ?_
  obtain ⟨c, -, hc⟩ := exists_left_of_forall₂ (mapM_eq_some.mp hcs).flip hr
  have htime := (ofLine?_eq_some.mp hc).2
  rw [millis?_panics h] at htime
  cases htime

theorem logs_of_mem_parseLog (h : parseLog o log = some cs) {c : Commit} (hc : c ∈ cs) :
    ∃ line seconds, line ∈ lines log ∧ Logs line c.hash seconds ∧
      (c.timestamp.toInt = 1000 * seconds ↔ Fits64 (1000 * seconds)) := by
  obtain ⟨⟨hash, seconds⟩, hr, hread⟩ := exists_left_of_forall₂ (mapM_eq_some.mp h) hc
  obtain ⟨line, hline, hlogs⟩ := List.mem_filterMap.mp hr
  obtain ⟨rfl, htime⟩ := ofLine?_eq_some.mp hread
  exact ⟨line, seconds, hline, readLogLine?_eq_some.mp hlogs, toInt_of_millis? htime⟩

/-- Texts of whole lines are read one after the other. The first that breaks off ends them all. -/
theorem parseLog_whole (o : Overflow) {texts : List String} (h : ∀ text ∈ texts, WholeLines text)
    (log : String) : parseLog o (String.join texts ++ log) = do
      let css ← texts.mapM (parseLog o)
      return css.flatten ++ (← parseLog o log) := by
  induction texts with
  | nil => simp [String.join_nil]
  | cons text texts ih =>
    obtain ⟨htext, htexts⟩ := List.forall_mem_cons.mp h
    have hfront : parseLog o (text ++ (String.join texts ++ log)) = do
        let cs ← parseLog o text
        return cs ++ (← parseLog o (String.join texts ++ log)) := by
      rw [parseLog, readLog_append_whole htext, List.mapM_append]
      rfl
    rw [String.join_cons, String.append_assoc, hfront, ih htexts, List.mapM_cons]
    simp [Option.bind_assoc]

/-- A log is read line by line, in order: a commit off each line that is about one, and nothing off
any other. Where the milliseconds of all of them fit 64 bits, these are their times. Where some do
not, a build that checks its products breaks off, and any other takes them around. Texts of whole
lines are read one after the other. -/
theorem parseLog_exact (log : String) :
    (∃ rs, Lists log rs ∧
      (∀ o, (∀ r ∈ rs, Fits64 (1000 * r.2)) →
        ∃ cs, parseLog o log = some cs ∧ List.Forall₂ Stamped rs cs) ∧
      ((∃ r ∈ rs, ¬Fits64 (1000 * r.2)) → parseLog .panics log = none) ∧
      ∃ cs, parseLog .wraps log = some cs ∧ List.Forall₂ StampedAround rs cs) ∧
    (∀ o cs, parseLog o log = some cs → ∀ c ∈ cs, ∃ line seconds, line ∈ lines log ∧
      Logs line c.hash seconds ∧
      (c.timestamp.toInt = 1000 * seconds ↔ Fits64 (1000 * seconds))) ∧
    ∀ o texts, (∀ text ∈ texts, WholeLines text) → parseLog o (String.join texts ++ log) = do
      let css ← texts.mapM (parseLog o)
      return css.flatten ++ (← parseLog o log) := by
  refine ⟨⟨readLog log, lists_readLog log, ?_, ?_, exists_parseLog_wraps log⟩, ?_, ?_⟩
  · exact fun o h => exists_parseLog_of_fits o h
  · rintro ⟨r, hr, hover⟩
    exact parseLog_panics hr hover
  · exact fun o cs h c hc => logs_of_mem_parseLog h hc
  · exact fun o texts h => parseLog_whole o h log

example : parseLog .panics "aaa 100\nbbb +200\nno commit\n\nccc 3s\n" =
    some [⟨"aaa", 100000⟩, ⟨"bbb", 200000⟩] := by
  decide +kernel

/-- Seconds that are read, and whose milliseconds do not fit: there are no commits at all in a checked
build, and one long before the epoch in any other. -/
theorem parseLog_overflows :
    Logs "a0 9223372036854776" "a0" 9223372036854776 ∧
      parseLog .panics "a0 9223372036854776\n" = none ∧
      parseLog .wraps "a0 9223372036854776\n" = some [⟨"a0", -9223372036854775616⟩] ∧
      (-9223372036854775616 : Instant).toInt ≠ 1000 * 9223372036854776 := by
  refine ⟨?_, by decide +kernel, by decide +kernel, by decide +kernel⟩
  exact readLogLine?_eq_some.mp (by decide +kernel)

end UsageGraph
