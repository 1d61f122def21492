import PlainJs.Proofs.Lowered
import PlainJs.Proofs.Switches.Retargeted

namespace PlainJs

open Effect Run Interp Comparison

namespace Run

variable {S V A : Type}

theorem map_leave_evaluating (x : Action S V A) (k : A → Effect S (Completion V)) :
    Completion.leave <$> evaluating x k = evaluating x fun a => Completion.leave <$> k a := by
  unfold evaluating
  rw [map_bind]
  congr 1
  funext r
  cases r with
  | ok a => rfl
  | error v => exact map_pure _ _

section

variable (accept : V → Bool) (body : Effect S (Completion V)) (rest : List (Case S V))
  (k : Option Nat → Effect S (Completion V))

theorem evaluating_select_nil : evaluating (select accept ([] : List (Case S V))) k = k none :=
  evaluating_pure _ _

theorem evaluating_select_none : evaluating (select accept (⟨none, body⟩ :: rest)) k =
    evaluating (select accept rest) fun entry => k (entry.map (· + 1)) :=
  evaluating_map _ _ _

theorem evaluating_select_some (test : Action S V V) :
    evaluating (select accept (⟨some test, body⟩ :: rest)) k = evaluating test fun w =>
      if accept w then k (some 0)
      else evaluating (select accept rest) fun entry => k (entry.map (· + 1)) := by
  rw [select, evaluating_bind]
  congr 1
  funext w
  split
  · exact evaluating_pure _ _
  · exact evaluating_map _ _ _

end

theorem defaultIdx_cons_some (test : Action S V V) (body : Effect S (Completion V))
    (rest : List (Case S V)) : defaultIdx (⟨some test, body⟩ :: rest) = defaultIdx rest + 1 := by
  rw [defaultIdx, List.findIdx_cons]
  rfl

theorem defaultIdx_cons_none (body : Effect S (Completion V)) (rest : List (Case S V)) :
    defaultIdx (⟨none, body⟩ :: rest) = 0 := by
  rw [defaultIdx, List.findIdx_cons]
  rfl

/-- Where a clause is entered after one that is not. -/
theorem drop_entry {c : Case S V} {rest : List (Case S V)} (entry : Option Nat) (d : Nat) :
    (c :: rest).drop ((entry.map (· + 1)).getD (d + 1)) = rest.drop (entry.getD d) := by
  cases entry <;> rfl

end Run

namespace Switches

variable {U V : Type} {I : Interp U V} {M M' N : List String} {label matched disc index : String}
  {given g : String → V} {v : V}

/-- Equal ends with labels in `N`, apart from the label that a `break` without one has got. -/
def Aimed (label : String) (N : List String) (c c' : Completion V) : Prop :=
  c.Within N true ∧ c' = c.aim label

theorem aimed_transparent : Transparent (Aimed (V := V) label N) where
  normal := ⟨trivial, rfl⟩
  throw _ := ⟨trivial, rfl⟩
  same h := (Completion.aim_transparent label).same h.2

theorem Aimed.leaveLabel {c c' : Completion V} (hl : label ∉ N) (h : Aimed label N c c') :
    c'.leaveLabel label = some c.leave := by
  obtain ⟨hwithin, rfl⟩ := h
  match c with
  | .break none => exact congrArg some (if_pos rfl)
  | .break (some x) =>
    have hx : x ≠ label := fun he => hl (he ▸ hwithin x rfl)
    exact congrArg some (if_neg hx)
  | .continue (some x) =>
    have hx : x ≠ label := fun he => hl (he ▸ hwithin.2 x rfl)
    exact if_neg hx
  | .continue none | .normal | .return _ | .throw _ => rfl

/-- A statement with the label ends as the `switch` that it stands for. -/
theorem related_labeled {R R' : State U V → State U V → Prop}
    {x y : Effect (State U V) (Completion V)} (hl : label ∉ N)
    (h : Related R (fun c s c' s' => Aimed label N c c' ∧ R' s s') x y) :
    Related R (fun c s c' s' => (c = c' ∧ c.Within N true) ∧ R' s s') (Completion.leave <$> x)
      (labeled label y) := by
  rw [map_eq_pure_bind]
  refine Related.bind h fun c c' s s' hc => ?_
  obtain ⟨haimed, hs⟩ := hc
  rw [haimed.leaveLabel hl]
  exact Alike.some ⟨⟨rfl, haimed.1.leave⟩, hs⟩

/-- Clauses that do alike whatever the temporaries outside `M` hold. -/
abbrev Clauses (M N : List String) (label : String) (cs cs' : List (Run.Case (State U V) V)) :
    Prop :=
  List.Forall₂ (fun c c' => ∀ given, CaseAlike (Near M given) (Aimed label N) c c') cs cs'

variable {cs cs' : List (Run.Case (State U V) V)}

/-- Sets the flag if the clause with this test is the one to enter. -/
def entering (I : Interp U V) (matched disc : String) :
    Option (Action (State U V) V V) → Effect (State U V) (Completion V)
  | none => setting matched (I.bool true) done
  | some test => reading matched fun m => if I.truthy m then done else
      reading disc fun v => evaluating test fun w =>
        if I.strictEq v w then setting matched (I.bool true) done else done

/-- Runs clauses behind a flag. -/
def flagRun (I : Interp U V) (matched disc : String) :
    List (Run.Case (State U V) V) → Effect (State U V) (Completion V)
  | [] => done
  | c :: rest => seq (entering I matched disc c.test)
      (seq (reading matched fun m => if I.truthy m then c.body else done)
        (flagRun I matched disc rest))

variable {Post : Completion V → State U V → Completion V → State U V → Prop}
  {x y z : Effect (State U V) (Completion V)}

/-- Once the flag is set it stays so. -/
theorem related_entering_entered (hmatched : matched ∉ M) (hg : g matched = I.bool true)
    (test : Option (Action (State U V) V V)) (h : Related (Near M g) Post x y) :
    Related (Near M g) Post x (seq (entering I matched disc test) y) := by
  cases test with
  | none =>
    rw [entering, seq_setting, done_seq]
    refine related_setting ?_
    rwa [← hg, Function.update_eq_self]
  | some test =>
    rw [entering, seq_reading]
    refine related_reading hmatched ?_
    rwa [hg, I.truthy_bool, if_pos rfl, done_seq]

theorem related_flagged (hmatched : matched ∉ M) {b : Bool} (hg : g matched = I.bool b)
    (h : Related (Near M g) Post x (seq (if b then y else done) z)) :
    Related (Near M g) Post x
      (seq (reading matched fun m => if I.truthy m then y else done) z) := by
  rw [seq_reading]
  refine related_reading hmatched ?_
  rwa [hg, I.truthy_bool]

theorem sim_flagged {c c' : Run.Case (State U V) V} {rest : List (Run.Case (State U V) V)}
    (hmatched : matched ∉ M) (hg : g matched = I.bool true)
    (hc : ∀ given, CaseAlike (Near M given) (Aimed label N) c c')
    (hrest : Sim (Near M g) (Aimed label N) (fallThrough rest) z) :
    Sim (Near M g) (Aimed label N) (fallThrough (c :: rest))
      (seq (reading matched fun m => if I.truthy m then c'.body else done) z) :=
  related_flagged hmatched hg (sim_seq aimed_transparent (hc g).2 hrest)

/-- Behind a flag that is set the bodies run one after the other. -/
theorem sim_flagRun (hmatched : matched ∉ M) (hcs : Clauses M N label cs cs')
    (hg : g matched = I.bool true) :
    Sim (Near M g) (Aimed label N) (fallThrough cs) (flagRun I matched disc cs') := by
  induction hcs with
  | nil => exact .pure aimed_transparent.normal
  | cons hc _ ih => exact related_entering_entered hmatched hg _ (sim_flagged hmatched hg hc ih)

/-- From the clause on that is entered the flag is set. -/
theorem related_entered {c c' : Run.Case (State U V) V} {rest rest' : List (Run.Case (State U V) V)}
    (h : NewPair M M' matched disc) (hg : ∀ x ∉ M', g x = given x)
    (hcs : Clauses M N label (c :: rest) (c' :: rest')) :
    Related (Near M g) (fun c s c' s' => Aimed label N c c' ∧ Near M' given s s')
      (fallThrough (c :: rest))
      (setting matched (I.bool true)
        (seq (reading matched fun m => if I.truthy m then c'.body else done)
          (flagRun I matched disc rest'))) := by
  obtain ⟨hc, hrest⟩ := List.forall₂_cons.mp hcs
  have hset : Function.update g matched (I.bool true) matched = I.bool true :=
    Function.update_self ..
  have htail : Sim (Near M (Function.update g matched (I.bool true))) (Aimed label N)
      (fallThrough rest) (flagRun I matched disc rest') := sim_flagRun h.notMem_fst hrest hset
  refine related_setting (Related.mono (sim_flagged h.notMem_fst hset hc htail) ?_)
  rintro c s c' s' ⟨hc, hs⟩
  refine ⟨hc, hs.mono h.subset fun x hx => ?_⟩
  have hne : x ≠ matched := fun he => hx (he ▸ h.mem_fst)
  rw [Function.update_of_ne hne, hg x hx]

/-- Behind a flag that is not set a `switch` looks for the clause to enter, if nothing follows
`default`. -/
theorem related_flagRun (h : NewPair M M' matched disc) (hcs : Clauses M N label cs cs')
    (hlast : cs.length ≤ defaultIdx cs + 1) (hfalse : g matched = I.bool false) (hv : g disc = v)
    (hg : ∀ x ∉ M', g x = given x) :
    Related (Near M g) (fun c s c' s' => Aimed label N c c' ∧ Near M' given s s')
      (evaluating (select (I.strictEq v) cs) fun entry =>
        fallThrough (cs.drop (entry.getD (defaultIdx cs))))
      (flagRun I matched disc cs') := by
  induction hcs with
  | nil =>
    rw [evaluating_select_nil]
    exact Related.pure fun s s' hs => ⟨aimed_transparent.normal, hs.mono h.subset hg⟩
  | @cons c c' rest rest' hc hrest ih =>
    have hentered := related_entered (I := I) h hg (.cons hc hrest)
    obtain ⟨test, body⟩ := c
    obtain ⟨test', body'⟩ := c'
    rw [flagRun]
    obtain ⟨htest | htest, -⟩ := hc g
    · rw [defaultIdx_cons_some] at hlast ⊢
      rw [evaluating_select_some, entering, seq_reading]
      refine related_reading h.notMem_fst ?_
      rw [hfalse, I.truthy_bool, if_neg Bool.false_ne_true, seq_reading]
      refine related_reading h.notMem_snd ?_
      rw [hv, seq_evaluating]
      refine related_evaluating htest ?_ fun w => ?_
      · exact fun w s s' hs => ⟨aimed_transparent.throw w, hs.mono h.subset hg⟩
      · by_cases hw : I.strictEq v w = true
        · rw [if_pos hw, if_pos hw, seq_setting, done_seq]
          exact hentered
        · rw [if_neg hw, if_neg hw, done_seq]
          refine related_flagged h.notMem_fst hfalse ?_
          rw [if_neg Bool.false_ne_true, done_seq]
          simp only [drop_entry]
          exact ih (by simpa using hlast)
    · rw [defaultIdx_cons_none] at hlast ⊢
      obtain rfl : rest = [] := List.eq_nil_of_length_eq_zero (by simpa using hlast)
      rw [evaluating_select_none, evaluating_select_nil, entering, seq_setting, done_seq]
      exact hentered

/-- Finds the clause to enter among those from `i` on. -/
def choosing (I : Interp U V) (disc index : String) :
    Nat → List (Run.Case (State U V) V) → Effect (State U V) (Completion V)
  | _, [] => done
  | i, ⟨none, _⟩ :: rest => choosing I disc index (i + 1) rest
  | i, ⟨some test, _⟩ :: rest => reading disc fun v => evaluating test fun w =>
      if I.strictEq v w then setting index (I.num (.ofNat i)) done
      else choosing I disc index (i + 1) rest

/-- Runs the clauses from `i` on whose index is not below that of the clause to enter. -/
def indexRun (I : Interp U V) (index : String) :
    Nat → List (Run.Case (State U V) V) → Effect (State U V) (Completion V)
  | _, [] => done
  | i, c :: rest => seq
      (reading index fun v => if I.atMost v (I.num (.ofNat i)) then c.body else done)
      (indexRun I index (i + 1) rest)

/-- The temporaries when the clause to enter among those from `i` on has been found. -/
def chosen (I : Interp U V) (index : String) (g : String → V) (i : Nat) (entry : Option Nat) :
    String → V :=
  entry.elim g fun j => Function.update g index (I.num (.ofNat (i + j)))

theorem chosen_map_succ (g : String → V) (i : Nat) (entry : Option Nat) :
    chosen I index g i (entry.map (· + 1)) = chosen I index g (i + 1) entry := by
  cases entry with
  | none => rfl
  | some j =>
    have hsum : i + (j + 1) = i + 1 + j := by omega
    exact congrArg (fun n => Function.update g index (I.num (.ofNat n))) hsum

theorem related_choosing {k : Option Nat → Effect (State U V) (Completion V)} {i : Nat}
    (hdisc : disc ∉ M) (hv : g disc = v) (hcs : Clauses M N label cs cs')
    (throw : ∀ w s s', Near M g s s' → Post (.throw w) s (.throw w) s')
    (hk : ∀ entry, Related (Near M (chosen I index g i entry)) Post (k entry) y) :
    Related (Near M g) Post (evaluating (select (I.strictEq v) cs) k)
      (seq (choosing I disc index i cs') y) := by
  induction hcs generalizing i k with
  | nil =>
    rw [evaluating_select_nil, choosing, done_seq]
    exact hk none
  | @cons c c' rest rest' hc _ ih =>
    have hshift (entry : Option Nat) : chosen I index g i (entry.map (· + 1)) =
        chosen I index g (i + 1) entry := chosen_map_succ g i entry
    have hrest := ih (i := i + 1) (k := fun entry => k (entry.map (· + 1))) fun entry =>
      hshift entry ▸ hk (entry.map (· + 1))
    obtain ⟨test, body⟩ := c
    obtain ⟨test', body'⟩ := c'
    obtain ⟨htest | htest, -⟩ := hc g
    · rw [evaluating_select_some, choosing, seq_reading]
      refine related_reading hdisc ?_
      rw [hv, seq_evaluating]
      refine related_evaluating htest throw fun w => ?_
      by_cases hw : I.strictEq v w = true
      · rw [if_pos hw, if_pos hw, seq_setting, done_seq]
        exact related_setting (hk (some 0))
      · rw [if_neg hw, if_neg hw]
        exact hrest
    · rw [evaluating_select_none, choosing]
      exact hrest

/-- The clauses from `i` on run from the `j`-th one on. -/
theorem sim_indexRun (hindex : index ∉ M) (hcs : Clauses M N label cs cs') {i j : Nat}
    (hj : g index = I.num (.ofNat j)) :
    Sim (Near M g) (Aimed label N) (fallThrough (cs.drop (j - i))) (indexRun I index i cs') := by
  induction hcs generalizing i with
  | nil =>
    rw [List.drop_nil]
    exact .pure aimed_transparent.normal
  | @cons c c' rest rest' hc _ ih =>
    rw [indexRun, seq_reading]
    refine related_reading hindex ?_
    rw [hj, I.atMost_num]
    by_cases hle : j ≤ i
    · have hzero : j - i = 0 := by omega
      have hrest := ih (i := i + 1)
      rw [show j - (i + 1) = 0 by omega, List.drop_zero] at hrest
      rw [hzero, List.drop_zero, if_pos (decide_eq_true hle)]
      exact sim_seq aimed_transparent (hc g).2 hrest
    · have hsucc : j - i = j - (i + 1) + 1 := by omega
      rw [hsucc, List.drop_succ_cons, if_neg (by simpa using hle), done_seq]
      exact ih

variable {subject subject' : Action (State U V) V V}

/-- The runs of a `switch`: its completion before the breaks have found it. -/
theorem evaluating_switchOn (subject : Action (State U V) V V)
    (cs : List (Run.Case (State U V) V)) :
    (evaluating subject fun v => switchOn (I.strictEq v) cs) =
      Completion.leave <$> evaluating subject fun v => evaluating (select (I.strictEq v) cs)
        fun entry => fallThrough (cs.drop (entry.getD (defaultIdx cs))) := by
  rw [map_leave_evaluating]
  congr 1
  funext v
  exact (map_leave_evaluating _ _).symm

/-- A `switch` and its form with a flag. -/
theorem related_flagForm (h : NewPair M M' matched disc) (hl : label ∉ N)
    (hsubject : ∀ given, subject.Keep (Near M given) subject') (hcs : Clauses M N label cs cs')
    (hlast : cs.length ≤ defaultIdx cs + 1) (given : String → V) :
    Related (Near M given) (fun c s c' s' => (c = c' ∧ c.Within N true) ∧ Near M' given s s')
      (evaluating subject fun v => switchOn (I.strictEq v) cs)
      (labeled label (setting matched (I.bool false)
        (evaluating subject' fun v => setting disc v (flagRun I matched disc cs')))) := by
  rw [evaluating_switchOn]
  refine related_labeled hl (related_setting (related_evaluating (hsubject _) ?_ fun v => ?_))
  · refine fun v s s' hs => ⟨aimed_transparent.throw v, hs.mono h.subset fun x hx => ?_⟩
    have hne : x ≠ matched := fun he => hx (he ▸ h.mem_fst)
    exact Function.update_of_ne hne ..
  · refine related_setting (related_flagRun h hcs hlast ?_ (Function.update_self ..) fun x hx => ?_)
    · rw [Function.update_of_ne h.ne, Function.update_self]
    · exact h.update _ _ _ hx

/-- A `switch` and its form with an index. -/
theorem related_indexForm (h : NewPair M M' disc index) (hl : label ∉ N)
    (hsubject : ∀ given, subject.Keep (Near M given) subject') (hcs : Clauses M N label cs cs')
    (given : String → V) :
    Related (Near M given) (fun c s c' s' => (c = c' ∧ c.Within N true) ∧ Near M' given s s')
      (evaluating subject fun v => switchOn (I.strictEq v) cs)
      (labeled label (evaluating subject' fun v => setting disc v
        (setting index (I.num (.ofNat (defaultIdx cs)))
          (seq (choosing I disc index 0 cs') (indexRun I index 0 cs'))))) := by
  rw [evaluating_switchOn]
  refine related_labeled hl (related_evaluating (hsubject _) ?_ fun v => ?_)
  · exact fun v s s' hs => ⟨aimed_transparent.throw v, hs.mono h.subset fun _ _ => rfl⟩
  · refine related_setting (related_setting (related_choosing h.notMem_fst ?_ hcs ?_ fun entry => ?_))
    · rw [Function.update_of_ne h.ne, Function.update_self]
    · exact fun w s s' hs =>
        ⟨aimed_transparent.throw w, hs.mono h.subset fun x hx => h.update _ _ _ hx⟩
    · have hrun {g : String → V} := sim_indexRun (I := I) (g := g) (i := 0)
        (j := entry.getD (defaultIdx cs)) h.notMem_snd hcs
      refine Related.mono (hrun ?_) ?_
      · cases entry with
        | none => exact Function.update_self ..
        | some j =>
          rw [chosen, Option.elim_some, Function.update_self, Nat.zero_add]
          rfl
      · rintro c s c' s' ⟨hc, hs⟩
        refine ⟨hc, hs.mono h.subset fun x hx => ?_⟩
        have hne : x ≠ index := fun he => hx (he ▸ h.mem_snd)
        cases entry with
        | none => exact h.update _ _ _ hx
        | some j =>
          rw [chosen, Option.elim_some, Function.update_of_ne hne]
          exact h.update _ _ _ hx

end Switches

end PlainJs
