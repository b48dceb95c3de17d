import UsageGraph.Shell.Run

/-! # What scripts cannot take back

* `Shell.Later`: no time is gained, and what was printed stays.
* `Shell.steady_program?`, `Shell.steady_builtin?`: every program of the machine keeps to this.
* `Shell.later_run`: so does a script, by induction on it, if the scripts that it starts do.
* `Shell.later_interpret`: so does every text of a script, by induction on the depth.
-/

namespace UsageGraph.Shell
open Text
set_option autoImplicit false

/-- There are the same streams, and each of them goes on from what it was. -/
structure Later (s s' : Shell) : Prop where
  nanosLeft : s'.nanosLeft ≤ s.nanosLeft
  length : s'.streams.length = s.streams.length
  streams : ∀ (i : Nat) (bytes : Bytes), s.streams[i]? = some bytes →
    ∃ more, s'.streams[i]? = some (bytes ++ more)

namespace Later
variable {s s' s'' : Shell}

theorem of_eq (hnanos : s'.nanosLeft = s.nanosLeft) (hstreams : s'.streams = s.streams) :
    Later s s' where
  nanosLeft := Nat.le_of_eq hnanos
  length := congrArg List.length hstreams
  streams := fun i bytes h => ⟨[], by rw [hstreams, h, List.append_nil]⟩

theorem refl (s : Shell) : Later s s := of_eq rfl rfl

theorem trans (h : Later s s') (h' : Later s' s'') : Later s s'' where
  nanosLeft := Nat.le_trans h'.nanosLeft h.nanosLeft
  length := h'.length.trans h.length
  streams := by
    intro i bytes hi
    obtain ⟨more, hmore⟩ := h.streams i bytes hi
    obtain ⟨further, hfurther⟩ := h'.streams i _ hmore
    exact ⟨more ++ further, by rw [hfurther, List.append_assoc]⟩

end Later

/-! ## Single changes -/

section
variable (s : Shell) (c : Channels)

theorem later_writeBytes (sink : Sink) (bytes : Bytes) : Later s (s.writeBytes sink bytes) := by
  cases sink with
  | stream j =>
    refine ⟨Nat.le_refl _, List.length_modify _ _ _, fun i before hi => ?_⟩
    show ∃ more, (s.streams.modify j (· ++ bytes))[i]? = some (before ++ more)
    rw [List.getElem?_modify, hi]
    by_cases hij : j = i
    · exact ⟨bytes, by simp [hij]⟩
    · exact ⟨[], by simp [hij]⟩
  | file at_ => exact .of_eq rfl rfl
  | nowhere => exact .refl s

theorem later_write (sink : Sink) (text : String) : Later s (s.write sink text) :=
  later_writeBytes s sink (encode text)

theorem later_fail (status : Nat) : Later s (s.fail status) := .of_eq rfl rfl

theorem later_succeed : Later s s.succeed := .of_eq rfl rfl

theorem later_exit (status : Nat) : Later s (s.exit status) := .of_eq rfl rfl

theorem later_finish (ending : Ending) : Later s (s.finish ending) := .of_eq rfl rfl

theorem later_assign (name value : String) : Later s (s.assign name value) := .of_eq rfl rfl

theorem later_complain (text : String) (status : Nat) : Later s (s.complain c text status) :=
  (later_write s _ _).trans (later_fail _ _)

theorem later_report (program argument : String) (cause : IoCause) :
    Later s (s.report c program argument cause) :=
  (later_write s _ _).trans (later_fail _ _)

theorem later_spend (nanos : Nat) : Later s (s.spend nanos) := by
  have h := Later.refl s
  rw [spend]
  split
  · exact ⟨Nat.zero_le _, h.length, h.streams⟩
  · exact ⟨Nat.sub_le _ _, h.length, h.streams⟩

theorem later_foldl {α : Type} {f : Shell → α → Shell} (hf : ∀ s a, Later s (f s a))
    (as : List α) : Later s (as.foldl f s) := by
  induction as generalizing s with
  | nil => exact .refl s
  | cons a as ih => exact (hf s a).trans (ih (f s a))

end

/-! ## Programs -/

/-- What a program does to the shell that starts it. -/
def Steady (p : Program) : Prop := ∀ args c s, Later s (p args c s)

theorem later_forEach {act : String → Shell → Shell} (hact : ∀ a s, Later s (act a s))
    (args : List String) (s : Shell) : Later s (forEach act args s) :=
  (later_succeed s).trans (later_foldl _ (fun s a => hact a s) args)

section
variable (args : List String) (c : Channels) (s : Shell)

theorem later_printEscaped (newline : Bool) : Later s (printEscaped c args newline s) :=
  (later_writeBytes s _ _).trans ((later_write _ _ _).trans (later_succeed _))

theorem later_echo : Later s (echo args c s) := by
  rw [echo]
  split
  · exact later_printEscaped _ c s _
  · exact (later_write s _ _).trans (later_succeed _)

theorem later_cat : Later s (cat args c s) := by
  refine later_forEach (fun path s => ?_) _ s
  rw [catOne]
  split
  · exact (later_writeBytes s _ _).trans (.of_eq rfl rfl)
  · split
    · exact later_writeBytes s _ _
    · exact later_report s c _ _ _

theorem later_change (complaint : String) (t : Task FileTree Unit) :
    Later s (change c complaint t s) := by
  have htree : Later s { s with tree := (t s.tree).state } := .of_eq rfl rfl
  rw [change]
  split
  · exact htree.trans ((later_write _ _ _).trans (later_fail _ _))
  · exact htree.trans (later_fail _ _)
  · exact htree

theorem later_sleep : Later s (sleep args c s) := by
  rw [sleep]
  split
  · exact (later_write s _ _).trans (later_fail _ _)
  · exact (later_succeed s).trans (later_spend _ _)

end

theorem steady_program? {name : String} {p : Program} (h : program? name = some p) : Steady p := by
  intro args c s
  unfold program? at h
  split at h
  all_goals cases h
  · exact later_cat args c s
  · exact later_echo args c s
  · exact later_fail s 1
  · exact later_forEach (fun path s => later_change c s _ _) _ s
  · unfold printf
    split
    · exact (later_write s _ _).trans (later_fail _ _)
    · exact (later_writeBytes s _ _).trans (later_succeed _)
  · exact (later_write s _ _).trans (later_succeed _)
  · exact later_forEach (fun path s => later_change c s _ _) _ s
  · exact later_sleep args c s
  · exact later_forEach (fun path s => later_change c s _ _) _ s
  · exact later_succeed s

/-! ## Commands of the shell itself -/

section
variable (args : List String) (c : Channels) (s : Shell)

theorem later_plainEcho : Later s (plainEcho args c s) := by
  unfold plainEcho
  split
  · exact later_printEscaped _ c s _
  · exact later_printEscaped _ c s _

theorem later_plainPrintf : Later s (plainPrintf args c s) := by
  unfold plainPrintf
  split
  · exact later_complain s c _ _
  · exact (later_writeBytes s _ _).trans (later_succeed _)

theorem later_cd : Later s (cd args c s) := by
  rw [cd]
  split
  · split
    · exact .of_eq rfl rfl
    · exact later_fail s _
  · exact later_complain s c _ _

theorem later_exportOne (a : String) : Later s (exportOne s a) := by
  rw [exportOne]
  split <;> exact .of_eq rfl rfl

theorem later_assignWords (names : List String) (line : List Char) :
    Later s (assignWords names line s) := by
  induction names generalizing line s with
  | nil => exact .refl s
  | cons name names ih =>
    cases names with
    | nil => exact later_assign s _ _
    | cons next more => exact (later_assign s _ _).trans (ih _ _)

theorem later_read : Later s (read args c s) := by
  have hinput : ∀ rest : Bytes, Later s { s with input := rest } := fun rest => .of_eq rfl rfl
  rw [read]
  split
  · exact (hinput _).trans ((later_assignWords _ _ _).trans (later_succeed _))
  · exact (hinput _).trans ((later_assignWords _ _ _).trans (later_fail _ _))

theorem later_set : Later s (set args c s) := by
  unfold set
  split
  all_goals try exact .of_eq rfl rfl
  split <;> exact .of_eq rfl rfl

theorem later_exitWith : Later s (exitWith args c s) := by
  unfold exitWith
  split
  · exact later_exit s _
  · split
    · exact later_exit s _
    · exact (later_complain s c _ _).trans (later_exit _ _)

theorem later_kill : Later s (kill args c s) := by
  rw [kill]
  split
  · exact later_complain s c _ _
  · split
    · exact later_complain s c _ _
    · split
      · rw [receive]
        split
        · exact later_succeed s
        · split <;> exact later_finish s _
      · exact later_complain s c _ _

theorem later_test : Later s (test args c s) := by
  rw [test]
  split
  · exact later_succeed s
  · exact later_fail s 1
  · exact later_complain s c _ _

end

theorem steady_builtin? {name : String} {p : Program} (h : builtin? name = some p) : Steady p := by
  intro args c s
  unfold builtin? at h
  split at h
  all_goals cases h
  · exact later_succeed s
  · rw [bracket]
    split
    · exact later_test _ c s
    · exact later_complain s c _ _
  · exact later_cd args c s
  · exact later_plainEcho args c s
  · exact later_exitWith args c s
  · exact (later_foldl s later_exportOne args).trans (later_succeed _)
  · exact later_kill args c s
  · exact later_plainPrintf args c s
  · exact later_read args c s
  · exact later_set args c s
  · exact .of_eq rfl rfl
  · exact later_test args c s
  · exact later_succeed s
  · exact .of_eq rfl rfl
  · exact later_succeed s

/-! ## Expansion -/

section
variable {run : Printing} (hrun : ∀ script s, Later s (run script s).2) (s : Shell)
include hrun

theorem later_pieceMarks (piece : Piece) : Later s (pieceMarks run s piece).2 := by
  unfold pieceMarks
  split
  all_goals try exact .refl s
  exact hrun _ s

theorem later_wordMarks (w : Word) : Later s (wordMarks run w s).2 := by
  fun_induction wordMarks run w s with
  | case1 s => exact .refl s
  | case2 rest s later s' hlater ih =>
    rw [hlater] at ih
    exact ih
  | case3 piece rest s hne first s' hfirst later s'' hlater ih =>
    have hpiece := later_pieceMarks hrun s piece
    rw [hfirst] at hpiece
    rw [hlater] at ih
    exact hpiece.trans ih

theorem later_expand (ws : List Word) : Later s (expand run ws s).2 := by
  induction ws generalizing s with
  | nil => exact .refl s
  | cons w ws ih => exact (later_wordMarks hrun s w).trans (ih _)

theorem later_textOf (w : Word) : Later s (textOf run w s).2 := later_wordMarks hrun s w

theorem later_matchesOne (text : String) (ws : List Word) :
    Later s (matchesOne run text ws s).2 := by
  induction ws generalizing s with
  | nil => exact .refl s
  | cons w ws ih =>
    have hpattern : Later s (patternOf run w s).2 := later_wordMarks hrun s w
    rw [matchesOne]
    split
    next p s' heq =>
      rw [heq] at hpattern
      split
      · exact hpattern
      · exact hpattern.trans (ih s')

theorem later_assignAll (as : List (String × Word)) : Later s (assignAll run as s) := by
  induction as generalizing s with
  | nil => exact .refl s
  | cons a as ih => exact (later_textOf hrun s a.2).trans ((later_assign _ _ _).trans (ih _))

end

/-! ## Redirections -/

theorem later_redirectInput (path : String) (c : Channels) (s : Shell) :
    Later s (redirectInput path c s).2 := by
  rw [redirectInput]
  split
  · exact .of_eq rfl rfl
  · exact later_complain s c _ _

theorem later_redirectOutput (channel : Nat) (path : String) (keep : Bool) (c : Channels)
    (s : Shell) : Later s (redirectOutput channel path keep c s).2 := by
  rw [redirectOutput]
  split
  · exact .refl s
  · split
    · exact .of_eq rfl rfl
    · exact later_complain s c _ _

theorem later_duplicate (channel : Nat) (name : String) (c : Channels) (s : Shell) :
    Later s (duplicate channel name c s).2 := by
  rw [duplicate]
  split
  · exact .refl s
  · exact later_complain s c _ _

section
variable {run : Printing} (hrun : ∀ script s, Later s (run script s).2)
include hrun

theorem later_redirect (r : Redirection) (c : Channels) (s : Shell) :
    Later s (redirect run r c s).2 := by
  have htarget : Later s (textOf run r.target s).2 := later_textOf hrun s r.target
  rw [redirect]
  split
  next target s' heq =>
    rw [heq] at htarget
    refine htarget.trans ?_
    cases r.direction with
    | input => exact later_redirectInput target c s'
    | output => exact later_redirectOutput r.channel target false c s'
    | append => exact later_redirectOutput r.channel target true c s'
    | duplicate => exact later_duplicate r.channel target c s'

theorem later_redirectAll (rs : List Redirection) (c : Channels) (s : Shell) :
    Later s (redirectAll run rs c s).2 := by
  induction rs generalizing c s with
  | nil => exact .refl s
  | cons r rs ih =>
    have hfirst := later_redirect hrun r c s
    rw [redirectAll]
    split
    · next c' s' heq =>
      rw [heq] at hfirst
      exact hfirst.trans (ih c' s')
    · next s' heq =>
      rw [heq] at hfirst
      exact hfirst

end

/-! ## Scripts inside of scripts -/

theorem later_resume {before after : Shell} (h : Later before after) :
    Later before (resume before after) := h.trans (.of_eq rfl rfl)

/-- The stream that is collected is the last one, so those in front of it stay. -/
theorem later_collecting {run : Sink → Shell → Shell} (hrun : ∀ sink s, Later s (run sink s))
    (s : Shell) : Later s (collecting run s).2 := by
  have h := hrun (.stream s.streams.length) { s with streams := s.streams ++ [[]] }
  have hlength := h.length
  refine ⟨h.nanosLeft, ?_, fun i bytes hi => ?_⟩
  · show (List.take _ _).length = _
    rw [List.length_take, hlength]
    simp
  · have hlt : i < s.streams.length := (List.getElem?_eq_some_iff.mp hi).1
    obtain ⟨more, hmore⟩ := h.streams i bytes (by rw [List.getElem?_append_left hlt, hi])
    exact ⟨more, (List.getElem?_take_of_lt hlt).trans hmore⟩

/-! ## Going on -/

theorem later_next {s s' : Shell} {f : Shell → Shell} (h : Later s s') (hf : ∀ s, Later s (f s)) :
    Later s (next s' f) := by
  rw [next]
  split
  · exact h
  · exact h.trans (hf s')

theorem later_judged {s s' : Shell} (tested : Bool) (h : Later s s') :
    Later s (judged tested s') := by
  rw [judged]
  split
  · exact h.trans (later_exit s' _)
  · exact h

theorem later_noticed {s s' : Shell} (c : Channels) (h : Later s s') : Later s (noticed c s') := by
  rw [noticed]
  split
  · exact h.trans ((later_write s' _ _).trans (.of_eq rfl rfl))
  · exact h

theorem later_rounds {condition body : Shell → Shell} (hcondition : ∀ s, Later s (condition s))
    (hbody : ∀ s, Later s (body s)) (whileFails : Bool) (fuel status : Nat) (s : Shell) :
    Later s (rounds whileFails condition body fuel status s) := by
  induction fuel generalizing status s with
  | zero => exact later_finish s _
  | succ fuel ih =>
    rw [rounds]
    refine later_next (later_spend s _) fun s => later_next (hcondition s) fun s => ?_
    split
    · exact later_next (hbody s) fun s => ih _ s
    · exact later_fail s _

/-! ## Commands -/

section
variable {interpreter : Interpreter} (hscripts : ∀ text c s, Later s (interpreter text c s))
include hscripts

theorem later_printing (c : Channels) (script : String) (s : Shell) :
    Later s (printing interpreter c script s).2 :=
  later_collecting (fun _ s => later_resume (hscripts script _ s)) s

theorem later_redirected (rs : List Redirection) (c : Channels) {run : Channels → Shell → Shell}
    (hrun : ∀ c s, Later s (run c s)) (s : Shell) :
    Later s (redirected interpreter rs c run s) := by
  have hall := later_redirectAll (later_printing hscripts c) rs c s
  rw [redirected]
  split
  · next c' s' heq =>
    rw [heq] at hall
    have hafter := hall.trans (hrun c' s')
    split
    · exact hafter.trans (.of_eq rfl rfl)
    · exact hafter
  · next s' heq =>
    rw [heq] at hall
    exact hall.trans (.of_eq rfl rfl)

theorem steady_shellProgram : Steady (shellProgram interpreter) := by
  intro args c s
  have hstarted : ∀ name arguments strict, Later s (started s name arguments strict) :=
    fun name arguments strict => .of_eq rfl rfl
  refine later_resume ?_
  dsimp only
  split
  · exact (hstarted _ _ _).trans (hscripts _ _ _)
  · exact (later_write s _ _).trans (later_fail _ _)
  · unfold scriptFile
    split
    · exact (hstarted _ _ _).trans (hscripts _ _ _)
    · exact (later_write s _ _).trans (later_fail _ _)
  · have hempty : Later s { started s "sh" [] (options args).1.strict with input := [] } :=
      .of_eq rfl rfl
    exact hempty.trans (hscripts _ _ _)

theorem steady_installed? {name : String} {p : Program}
    (h : installed? interpreter name = some p) : Steady p := by
  rw [installed?] at h
  split at h
  · cases h
    exact steady_shellProgram hscripts
  · exact steady_program? h

theorem later_runProgram (name : String) (args : List String) (c : Channels) (s : Shell) :
    Later s (runProgram interpreter name args c s) := by
  rw [runProgram]
  split
  · split
    · next program heq =>
      obtain ⟨name', -, hprogram⟩ := Option.bind_eq_some_iff.mp heq
      exact later_noticed c (steady_installed? hscripts hprogram args c s)
    · rw [startFile]
      split <;> exact later_complain s c _ _
  · split
    · next program heq => exact later_noticed c (steady_installed? hscripts heq args c s)
    · exact later_complain s c _ _

theorem later_invoke (words : List String) (c : Channels) (s : Shell) :
    Later s (invoke interpreter words c s) := by
  unfold invoke
  split
  · exact .refl s
  · exact hscripts _ c s
  · next name args =>
    have hprogram := later_runProgram hscripts name args c s
    rw [replaced]
    split
    · exact hprogram
    · exact hprogram.trans (later_exit _ _)
  · split
    · next heq => exact steady_builtin? heq _ c s
    · exact later_runProgram hscripts _ _ c s

theorem later_command (words : List Word) (rs : List Redirection) (c : Channels) (s : Shell) :
    Later s (command interpreter words rs c s) := by
  have hprinting := later_printing hscripts c
  rw [command]
  split
  next assignments words heq =>
    have hwords := later_expand hprinting s words
    split
    next fields s' heq' =>
      rw [heq'] at hwords
      refine hwords.trans (later_redirected hscripts rs c (fun c s => ?_) s')
      split
      · exact (later_succeed s).trans (later_assignAll hprinting _ _)
      · have hshared := (later_assignAll hprinting s assignments).trans
          (later_foldl _ (fun s a => .of_eq rfl rfl : ∀ s (a : String × Word), Later s (s.share a.1))
            assignments)
        have hafter := hshared.trans (later_invoke hscripts fields c _)
        dsimp only
        split
        · exact hafter
        · exact hafter.trans (.of_eq rfl rfl)

/-! ## Scripts -/

theorem later_run (script : Script) (tested : Bool) (c : Channels) (s : Shell) :
    Later s (script.run interpreter tested c s) := by
  induction script generalizing tested c s with
  | skip => exact .refl s
  | command words rs => exact later_judged tested (later_command hscripts words rs c s)
  | sequence first second ihfirst ihsecond =>
    exact later_next (ihfirst tested c s) (ihsecond tested c)
  | both first second ihfirst ihsecond =>
    refine later_next (ihfirst true c s) fun s => ?_
    split
    · exact ihsecond tested c s
    · exact .refl s
  | either first second ihfirst ihsecond =>
    refine later_next (ihfirst true c s) fun s => ?_
    split
    · exact .refl s
    · exact ihsecond tested c s
  | negation body ih =>
    refine later_next (ih true c s) fun s => ?_
    split
    · exact later_fail s 1
    · exact later_succeed s
  | pipe first second ihfirst ihsecond =>
    have hfirst : Later s (collecting (fun sink =>
        apart (first.run interpreter true { c with out := sink })) s).2 :=
      later_collecting (fun sink s => later_resume (ihfirst true _ s)) s
    rw [Script.run]
    split
    next bytes after heq =>
      rw [heq] at hfirst
      refine later_next hfirst fun s => later_judged tested ?_
      have hinput : Later s { s with input := bytes } := .of_eq rfl rfl
      exact hinput.trans ((later_resume (ihsecond tested c _)).trans (.of_eq rfl rfl))
  | subshell body rs ih =>
    exact later_judged tested (later_redirected hscripts rs c
      (fun c s => later_resume (ih tested c s)) s)
  | group body rs ih => exact later_redirected hscripts rs c (ih tested) s
  | branch condition yes no ihcondition ihyes ihno =>
    refine later_next (ihcondition true c s) fun s => ?_
    split
    · exact ihyes tested c s
    · exact (later_succeed s).trans (ihno tested c _)
  | loop whileFails condition body ihcondition ihbody =>
    exact later_rounds (ihcondition true c) (ihbody tested c) whileFails _ _ s
  | each name values body ih =>
    have hvalues := later_expand (later_printing hscripts c) s values
    rw [Script.run]
    split
    next fields s' heq =>
      rw [heq] at hvalues
      refine hvalues.trans ((later_succeed s').trans (later_foldl _ (fun s value => ?_) fields))
      exact later_next (.refl s) fun s => (later_assign s name value).trans (ih tested c _)
  | choice subject patterns body otherwise ihbody ihotherwise =>
    have hprinting := later_printing hscripts c
    have hsubject := later_textOf hprinting s subject
    have hpatterns := hsubject.trans (later_matchesOne hprinting _
      (textOf (printing interpreter c) subject s).1 patterns)
    rw [Script.run]
    dsimp only
    split
    · exact hpatterns.trans ((later_succeed _).trans (ihbody tested c _))
    · exact hpatterns.trans ((later_succeed _).trans (ihotherwise tested c _))

end

theorem later_interpret (depth : Nat) (text : String) (c : Channels) (s : Shell) :
    Later s (interpret depth text c s) := by
  induction depth generalizing text c s with
  | zero => exact later_complain s c _ _
  | succ depth ih =>
    rw [interpret]
    split
    · exact (later_complain s c _ _).trans (later_exit _ _)
    · exact later_run ih _ false c s

end UsageGraph.Shell
