import PlainJs.Proofs.Carried
import PlainJs.Proofs.Rules.Passes

namespace PlainJs

open Node Build

namespace Node

def isSequence : Expr → Bool
  | .seq .. => true
  | _ => false

/-- The node is no declarator that has a bare sequence as its initializer. -/
def hasSingleInit : {c : Cat} → Node c → Bool
  | _, .declarator _ _ _ (.some e) => !e.isSequence
  | _, _ => true

/-- The node is no property of a pattern that has a bare sequence as its computed key. -/
def hasSingleKey : {c : Cat} → Node c → Bool
  | _, .keyedPat (.computedKey _ e) _ => !e.isSequence
  | _, _ => true

/-- The node is no `switch` with clauses that has a bare sequence as its subject. -/
def hasSingleSubject : {c : Cat} → Node c → Bool
  | _, .switchStmt _ e (.cons ..) => !e.isSequence
  | _, _ => true

/-- The forms of nodes that the three conditions look at. -/
def isSite : {c : Cat} → Node c → Bool
  | _, .declarator .. | _, .keyedPat .. | _, .switchStmt .. => true
  | _, _ => false

variable {c : Cat} {n n' : Node c}

theorem isSequence_head (e : Expr) : e.head.isSequence = e.isSequence := by cases e <;> rfl

theorem single_of_isSite_eq_false (h : n.isSite = false) :
    n.hasSingleInit = true ∧ n.hasSingleKey = true ∧ n.hasSingleSubject = true := by
  cases n <;> first | exact ⟨rfl, rfl, rfl⟩ | cases h

theorem hasSingleInit_declarator (span : Span) (definite : Bool) (p : Pat) (o : Node (.opt .expr)) :
    (declarator span definite p o).hasSingleInit = !o.heads.any isSequence := by
  cases o with
  | none => rfl
  | some e =>
    have hheads : (Node.some e).heads = e.heads := rfl
    rw [hheads, heads_expr]
    simp [hasSingleInit, isSequence_head]

theorem hasSingleKey_keyedPat (k : Key) (p : Pat) :
    (keyedPat k p).hasSingleKey = !k.heads.any isSequence := by
  cases k with
  | fixedKey => rfl
  | computedKey span e => simp [hasSingleKey, heads, isSequence_head]

theorem hasSingleSubject_switchStmt (span : Span) (e : Expr) (clauses : Node (.list .clause)) :
    (switchStmt span e clauses).hasSingleSubject = !(clauses.hasClauses && e.isSequence) := by
  cases clauses <;> rfl

/-- The conditions only look at the outermost operators of expressions. -/
theorem single_parts (h : Parts SameHeads n n') :
    n.hasSingleInit = n'.hasSingleInit ∧ n.hasSingleKey = n'.hasSingleKey ∧
      n.hasSingleSubject = n'.hasSingleSubject := by
  have hsite : n.isSite = n'.isSite := h.form_eq isSite fun m => by cases m <;> rfl
  cases hn : n.isSite with
  | false =>
    obtain ⟨hinit, hkey, hsubject⟩ := single_of_isSite_eq_false hn
    obtain ⟨hinit', hkey', hsubject'⟩ := single_of_isSite_eq_false (hsite.symm.trans hn)
    exact ⟨hinit.trans hinit'.symm, hkey.trans hkey'.symm, hsubject.trans hsubject'.symm⟩
  | true =>
    cases n with
    | declarator span definite p o =>
      obtain ⟨p', -, o', ho, rfl⟩ := h
      refine ⟨?_, rfl, rfl⟩
      rw [hasSingleInit_declarator, hasSingleInit_declarator, ho.heads]
    | keyedPat k p =>
      obtain ⟨k', hk, p', -, rfl⟩ := h
      refine ⟨rfl, ?_, rfl⟩
      rw [hasSingleKey_keyedPat, hasSingleKey_keyedPat, hk.heads]
    | switchStmt span e clauses =>
      obtain ⟨e', he, clauses', hclauses, rfl⟩ := h
      refine ⟨rfl, rfl, ?_⟩
      have hsame : e.isSequence = e'.isSequence := he.congr isSequence isSequence_head
      rw [hasSingleSubject_switchStmt, hasSingleSubject_switchStmt, hclauses.hasClauses, hsame]
    | _ => cases hn

theorem isSequence_eq_false {e : Expr} (h : assignStrength ≤ e.strength) : e.isSequence = false := by
  cases e with
  | seq => cases h
  | _ => rfl

/-- The conditions on the places from which lowering takes initializers. -/
def isSingle (keys subjects : Bool) {c : Cat} (n : Node c) : Bool :=
  n.hasSingleInit && (!keys || n.hasSingleKey) && (!subjects || n.hasSingleSubject)

end Node

namespace SyntaxRule

/-- No initializer is a bare sequence, and no key and no subject is one where they matter. -/
def singleInits (keys subjects : Bool) : SyntaxRule where
  test {_} n := n.isSingle keys subjects
  init e := !e.isSequence
  parts h := by
    obtain ⟨hinit, hkey, hsubject⟩ := single_parts h
    rw [isSingle, isSingle, hinit, hkey, hsubject]
  free {_ n} h := by
    have hsite : n.isSite = false := by cases n <;> first | rfl | cases h
    obtain ⟨hinit, hkey, hsubject⟩ := single_of_isSite_eq_false hsite
    simp [isSingle, hinit, hkey, hsubject]
  unary _ := by simp [isSingle, hasSingleInit, hasSingleKey, hasSingleSubject]
  binary _ _ _ := by simp [isSingle, hasSingleInit, hasSingleKey, hasSingleSubject]
  cond _ _ _ := by simp [isSingle, hasSingleInit, hasSingleKey, hasSingleSubject]
  member _ := by simp [isSingle, hasSingleInit, hasSingleKey, hasSingleSubject]
  call _ _ := by simp [isSingle, hasSingleInit, hasSingleKey, hasSingleSubject]
  assign _ _ := by simp [isSingle, hasSingleInit, hasSingleKey, hasSingleSubject]
  declarator {_ _ _ o} := by
    cases o <;> simp [isSingle, hasSingleInit, hasSingleKey, hasSingleSubject, toOption]
  init_strength h := by rw [isSequence_eq_false h]; rfl

theorem cutsKeys_singleInits (subjects : Bool) : (singleInits true subjects).CutsKeys := by
  intro span e p h
  simpa [singleInits, isSingle, hasSingleInit, hasSingleKey, hasSingleSubject] using h

theorem cutsSubjects_singleInits (keys : Bool) : (singleInits keys true).CutsSubjects := by
  intro span e clauses h hclauses
  simpa [singleInits, isSingle, hasSingleInit, hasSingleKey, hasSingleSubject_switchStmt,
    hclauses] using h

theorem suits_singleInits {config : Config} {stage : Stage} (h : stage.isEnabled config = true) :
    (singleInits (config.declarations || config.loops) config.switches).Suits stage := by
  cases stage with
  | declarations =>
    have hkeys : (config.declarations || config.loops) = true := by
      rw [show config.declarations = true from h]
      rfl
    rw [hkeys]
    exact cutsKeys_singleInits _
  | loops =>
    have hkeys : (config.declarations || config.loops) = true := by
      rw [show config.loops = true from h, Bool.or_true]
    rw [hkeys]
    exact cutsKeys_singleInits _
  | switches =>
    rw [show config.switches = true from h]
    exact cutsSubjects_singleInits _
  | continues | finallys => trivial

end SyntaxRule

theorem Node.all_and {test test' : ∀ {d : Cat}, Node d → Bool} {c : Cat} {n : Node c} :
    (n.all fun k => test k && test' k) = true ↔ n.all test = true ∧ n.all test' = true := by
  induction n using partsInduction with
  | step n ih =>
    rw [all_iff, all_iff, all_iff, Bool.and_eq_true]
    constructor
    · rintro ⟨⟨h, h'⟩, hparts⟩
      exact ⟨⟨h, fun hk => ((ih hk).mp (hparts hk)).1⟩, h', fun hk => ((ih hk).mp (hparts hk)).2⟩
    · rintro ⟨⟨h, hparts⟩, h', hparts'⟩
      exact ⟨⟨h, h'⟩, fun hk => (ih hk).mpr ⟨hparts hk, hparts' hk⟩⟩

theorem Node.all_or_not {test : ∀ {d : Cat}, Node d → Bool} {b : Bool} {c : Cat} {n : Node c}
    (h : b = true → n.all test = true) : (n.all fun k => !b || test k) = true := by
  cases b with
  | false => exact all_of_forall n fun _ => rfl
  | true => exact h rfl

/-- Where no initializer of a program is a bare sequence, and none of the keys and subjects that
become initializers, lowering gives a program without such initializers. -/
theorem lowerProgram_keeps_single_initializers {config : Config} {p : Program}
    (hvalid : config.validate = .ok ()) (hinit : p.all hasSingleInit = true)
    (hkeys : config.declarations = true ∨ config.loops = true → p.all hasSingleKey = true)
    (hsubjects : config.switches = true → p.all hasSingleSubject = true) :
    ∃ out, lowerProgram config p = .ok out ∧ out.program.all hasSingleInit = true := by
  refine ⟨_, Lowering.lowerProgram_eq hvalid p, ?_⟩
  have hkeys' : config.declarations || config.loops → p.all hasSingleKey = true := fun h =>
    hkeys (by simpa using h)
  have hall : (SyntaxRule.singleInits (config.declarations || config.loops)
      config.switches).Holds p :=
    all_and.mpr ⟨all_and.mpr ⟨hinit, all_or_not hkeys'⟩, all_or_not hsubjects⟩
  have hout := SyntaxRule.holds_lowerWith (fun _ h => SyntaxRule.suits_singleInits h) hall
  exact (all_and.mp (all_and.mp hout).1).1

/-- `switch ((a, b)) { case c, d: let { [k]: x = (e, f) } = o; }
for (y in o, p) g(y);` -/
def parenthesised : Program :=
  let pair (a b : String) : Expr := .seq .none (.ofList [Build.name a, Build.name b])
  let prop : Node .patProp := .keyedPat (.computedKey .none (Build.name "k"))
    (.defaultPat .none (.binder (.ofName "x")) (.paren .none (pair "e" "f")))
  .scriptProgram .none none (.ofList [
    .switchStmt .none (.paren .none (pair "a" "b")) (.ofList [
      .clause .none (.some (pair "c" "d")) (.ofList [
        declarePat .none .var (.objectPat .none false (.ofList [prop])) (some (Build.name "o"))])]),
    .forInStmt .none (.headPat (.binder (.ofName "y"))) (pair "o" "p")
      (Build.exprStmt (Build.call (Build.name "g") [Build.name "y"]))])

theorem lowerProgram_keeps_single_initializers_parenthesised :
    Config.default.validate = .ok () ∧ parenthesised.all hasSingleInit = true ∧
      parenthesised.all hasSingleKey = true ∧ parenthesised.all hasSingleSubject = true ∧
      ∃ out, lowerProgram .default parenthesised = .ok out ∧
        out.program.all hasSingleInit = true := by
  have hvalid : Config.default.validate = .ok () := by decide +kernel
  have hinit : parenthesised.all hasSingleInit = true := by decide +kernel
  have hkeys : parenthesised.all hasSingleKey = true := by decide +kernel
  have hsubjects : parenthesised.all hasSingleSubject = true := by decide +kernel
  exact ⟨hvalid, hinit, hkeys, hsubjects,
    lowerProgram_keeps_single_initializers hvalid hinit (fun _ => hkeys) fun _ => hsubjects⟩

/-- `switch (a, b) { case 1: f(); }` -/
def pairSubject : Program :=
  .scriptProgram .none none (.ofList [
    .switchStmt .none (.seq .none (.ofList [Build.name "a", Build.name "b"])) (.ofList [
      .clause .none (.some (Build.num 1)) (.ofList [
        Build.exprStmt (Build.call (Build.name "f") [])])])])

/-- The subject of a `switch` becomes an initializer without parentheses. -/
theorem lowerProgram_splits_initializer_pairSubject :
    pairSubject.all hasSingleInit = true ∧ pairSubject.all hasSingleKey = true ∧
      ∃ out, lowerProgram .default pairSubject = .ok out ∧
        out.program.all hasSingleInit = false := by
  have hvalid : Config.default.validate = .ok () := by decide +kernel
  exact ⟨by decide +kernel, by decide +kernel, _, Lowering.lowerProgram_eq hvalid pairSubject,
    by decide +kernel⟩

end PlainJs
