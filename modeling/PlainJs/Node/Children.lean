import PlainJs.Node.Basic

namespace PlainJs

namespace Node

/-- The direct parts of a tree in visiting order. -/
def children : {c : Cat} → Node c → List (Sigma Node)
  | _, .nil => []
  | _, .cons a b => [⟨_, a⟩, ⟨_, b⟩]
  | _, .none => []
  | _, .some a => [⟨_, a⟩]
  | _, .ref _ => []
  | _, .atom _ _ => []
  | _, .array _ a => [⟨_, a⟩]
  | _, .object _ a => [⟨_, a⟩]
  | _, .function _ a => [⟨_, a⟩]
  | _, .classExpr _ a => [⟨_, a⟩]
  | _, .arrow _ _ _ _ a b => [⟨_, a⟩, ⟨_, b⟩]
  | _, .unary _ _ a => [⟨_, a⟩]
  | _, .update _ _ _ a => [⟨_, a⟩]
  | _, .binary _ _ a b => [⟨_, a⟩, ⟨_, b⟩]
  | _, .assign _ _ a b => [⟨_, a⟩, ⟨_, b⟩]
  | _, .cond _ a b c => [⟨_, a⟩, ⟨_, b⟩, ⟨_, c⟩]
  | _, .seq _ a => [⟨_, a⟩]
  | _, .member _ a b => [⟨_, a⟩, ⟨_, b⟩]
  | _, .superMember _ _ a => [⟨_, a⟩]
  | _, .call _ _ a b => [⟨_, a⟩, ⟨_, b⟩]
  | _, .newCall _ _ a b => [⟨_, a⟩, ⟨_, b⟩]
  | _, .optMember _ _ _ a b => [⟨_, a⟩, ⟨_, b⟩]
  | _, .optCall _ _ _ _ a b => [⟨_, a⟩, ⟨_, b⟩]
  | _, .paren _ a => [⟨_, a⟩]
  | _, .template _ a _ => [⟨_, a⟩]
  | _, .tagged _ _ a _ b _ => [⟨_, a⟩, ⟨_, b⟩]
  | _, .yieldExpr _ _ a => [⟨_, a⟩]
  | _, .awaitExpr _ a => [⟨_, a⟩]
  | _, .binder _ => []
  | _, .arrayPat _ _ a => [⟨_, a⟩]
  | _, .objectPat _ _ a => [⟨_, a⟩]
  | _, .restPat _ _ a => [⟨_, a⟩]
  | _, .defaultPat _ a b => [⟨_, a⟩, ⟨_, b⟩]
  | _, .exprPat a => [⟨_, a⟩]
  | _, .invalidPat _ => []
  | _, .keyedPat a b => [⟨_, a⟩, ⟨_, b⟩]
  | _, .shortPat _ _ a => [⟨_, a⟩]
  | _, .restProp _ _ a => [⟨_, a⟩]
  | _, .fixedKey _ _ => []
  | _, .computedKey _ a => [⟨_, a⟩]
  | _, .shortProp _ => []
  | _, .defaultProp _ _ a => [⟨_, a⟩]
  | _, .keyedProp a b => [⟨_, a⟩, ⟨_, b⟩]
  | _, .getterProp _ a b => [⟨_, a⟩, ⟨_, b⟩]
  | _, .setterProp _ a b c => [⟨_, a⟩, ⟨_, b⟩, ⟨_, c⟩]
  | _, .methodProp a b => [⟨_, a⟩, ⟨_, b⟩]
  | _, .spreadProp _ a => [⟨_, a⟩]
  | _, .plainArg a => [⟨_, a⟩]
  | _, .spreadArg _ a => [⟨_, a⟩]
  | _, .exprCallee a => [⟨_, a⟩]
  | _, .superCallee _ => []
  | _, .importCallee _ => []
  | _, .func _ _ _ _ a b c => [⟨_, a⟩, ⟨_, b⟩, ⟨_, c⟩]
  | _, .param _ a b => [⟨_, a⟩, ⟨_, b⟩]
  | _, .decorator _ a => [⟨_, a⟩]
  | _, .cls _ _ a b c => [⟨_, a⟩, ⟨_, b⟩, ⟨_, c⟩]
  | _, .ctorMember _ _ a b c => [⟨_, a⟩, ⟨_, b⟩, ⟨_, c⟩]
  | _, .methodMember _ _ _ a b => [⟨_, a⟩, ⟨_, b⟩]
  | _, .fieldMember _ _ _ a b c => [⟨_, a⟩, ⟨_, b⟩, ⟨_, c⟩]
  | _, .staticBlock _ a => [⟨_, a⟩]
  | _, .emptyMember _ => []
  | _, .blockBody a => [⟨_, a⟩]
  | _, .exprBody a => [⟨_, a⟩]
  | _, .block _ _ a => [⟨_, a⟩]
  | _, .blockStmt a => [⟨_, a⟩]
  | _, .emptyStmt _ => []
  | _, .debuggerStmt _ => []
  | _, .exprStmt _ a => [⟨_, a⟩]
  | _, .withStmt _ a b => [⟨_, a⟩, ⟨_, b⟩]
  | _, .returnStmt _ a => [⟨_, a⟩]
  | _, .throwStmt _ a => [⟨_, a⟩]
  | _, .labeledStmt _ _ a => [⟨_, a⟩]
  | _, .breakStmt _ _ => []
  | _, .continueStmt _ _ => []
  | _, .ifStmt _ a b c => [⟨_, a⟩, ⟨_, b⟩, ⟨_, c⟩]
  | _, .switchStmt _ a b => [⟨_, a⟩, ⟨_, b⟩]
  | _, .tryStmt _ a b c => [⟨_, a⟩, ⟨_, b⟩, ⟨_, c⟩]
  | _, .whileStmt _ a b => [⟨_, a⟩, ⟨_, b⟩]
  | _, .doWhileStmt _ a b => [⟨_, a⟩, ⟨_, b⟩]
  | _, .forStmt _ a b c d => [⟨_, a⟩, ⟨_, b⟩, ⟨_, c⟩, ⟨_, d⟩]
  | _, .forInStmt _ a b c => [⟨_, a⟩, ⟨_, b⟩, ⟨_, c⟩]
  | _, .forOfStmt _ _ a b c => [⟨_, a⟩, ⟨_, b⟩, ⟨_, c⟩]
  | _, .declStmt a => [⟨_, a⟩]
  | _, .clause _ a b => [⟨_, a⟩, ⟨_, b⟩]
  | _, .handler _ a b => [⟨_, a⟩, ⟨_, b⟩]
  | _, .initDecl a => [⟨_, a⟩]
  | _, .initExpr a => [⟨_, a⟩]
  | _, .headDecl a => [⟨_, a⟩]
  | _, .headUsing _ _ a => [⟨_, a⟩]
  | _, .headPat a => [⟨_, a⟩]
  | _, .declVar a => [⟨_, a⟩]
  | _, .declFunc _ _ a => [⟨_, a⟩]
  | _, .declClass _ _ a => [⟨_, a⟩]
  | _, .declUsing _ _ a => [⟨_, a⟩]
  | _, .varDecl _ _ _ _ a => [⟨_, a⟩]
  | _, .declarator _ _ a b => [⟨_, a⟩, ⟨_, b⟩]
  | _, .stmtItem a => [⟨_, a⟩]
  | _, .importItem _ => []
  | _, .exportDecl _ a => [⟨_, a⟩]
  | _, .exportNames _ => []
  | _, .exportFunc _ _ a => [⟨_, a⟩]
  | _, .exportClass _ _ a => [⟨_, a⟩]
  | _, .exportExpr _ a => [⟨_, a⟩]
  | _, .exportAll _ _ => []
  | _, .moduleProgram _ _ a => [⟨_, a⟩]
  | _, .scriptProgram _ _ a => [⟨_, a⟩]

/-- Runs `f` on the direct parts in visiting order and puts the results in their places. -/
def traverse {m : Type → Type} [Monad m] : {c : Cat} → (n : Node c) →
    (f : {d : Cat} → (k : Node d) →
      (h : ⟨d, k⟩ ∈ n.children := by
        first
          | exact .head _
          | exact .tail _ (.head _)
          | exact .tail _ (.tail _ (.head _))
          | exact .tail _ (.tail _ (.tail _ (.head _)))) →
      m (Node d)) →
    m (Node c)
  | _, .nil, _ => return .nil
  | _, .cons a b, f => return .cons (← f a) (← f b)
  | _, .none, _ => return .none
  | _, .some a, f => return .some (← f a)
  | _, .ref p, _ => return .ref p
  | _, .atom p q, _ => return .atom p q
  | _, .array p a, f => return .array p (← f a)
  | _, .object p a, f => return .object p (← f a)
  | _, .function p a, f => return .function p (← f a)
  | _, .classExpr p a, f => return .classExpr p (← f a)
  | _, .arrow p q r s a b, f => return .arrow p q r s (← f a) (← f b)
  | _, .unary p q a, f => return .unary p q (← f a)
  | _, .update p q r a, f => return .update p q r (← f a)
  | _, .binary p q a b, f => return .binary p q (← f a) (← f b)
  | _, .assign p q a b, f => return .assign p q (← f a) (← f b)
  | _, .cond p a b c, f => return .cond p (← f a) (← f b) (← f c)
  | _, .seq p a, f => return .seq p (← f a)
  | _, .member p a b, f => return .member p (← f a) (← f b)
  | _, .superMember p q a, f => return .superMember p q (← f a)
  | _, .call p q a b, f => return .call p q (← f a) (← f b)
  | _, .newCall p q a b, f => return .newCall p q (← f a) (← f b)
  | _, .optMember p q r a b, f => return .optMember p q r (← f a) (← f b)
  | _, .optCall p q r s a b, f => return .optCall p q r s (← f a) (← f b)
  | _, .paren p a, f => return .paren p (← f a)
  | _, .template p a q, f => return .template p (← f a) q
  | _, .tagged p q a r b s, f => return .tagged p q (← f a) r (← f b) s
  | _, .yieldExpr p q a, f => return .yieldExpr p q (← f a)
  | _, .awaitExpr p a, f => return .awaitExpr p (← f a)
  | _, .binder p, _ => return .binder p
  | _, .arrayPat p q a, f => return .arrayPat p q (← f a)
  | _, .objectPat p q a, f => return .objectPat p q (← f a)
  | _, .restPat p q a, f => return .restPat p q (← f a)
  | _, .defaultPat p a b, f => return .defaultPat p (← f a) (← f b)
  | _, .exprPat a, f => return .exprPat (← f a)
  | _, .invalidPat p, _ => return .invalidPat p
  | _, .keyedPat a b, f => return .keyedPat (← f a) (← f b)
  | _, .shortPat p q a, f => return .shortPat p q (← f a)
  | _, .restProp p q a, f => return .restProp p q (← f a)
  | _, .fixedKey p q, _ => return .fixedKey p q
  | _, .computedKey p a, f => return .computedKey p (← f a)
  | _, .shortProp p, _ => return .shortProp p
  | _, .defaultProp p q a, f => return .defaultProp p q (← f a)
  | _, .keyedProp a b, f => return .keyedProp (← f a) (← f b)
  | _, .getterProp p a b, f => return .getterProp p (← f a) (← f b)
  | _, .setterProp p a b c, f => return .setterProp p (← f a) (← f b) (← f c)
  | _, .methodProp a b, f => return .methodProp (← f a) (← f b)
  | _, .spreadProp p a, f => return .spreadProp p (← f a)
  | _, .plainArg a, f => return .plainArg (← f a)
  | _, .spreadArg p a, f => return .spreadArg p (← f a)
  | _, .exprCallee a, f => return .exprCallee (← f a)
  | _, .superCallee p, _ => return .superCallee p
  | _, .importCallee p, _ => return .importCallee p
  | _, .func p q r s a b c, f => return .func p q r s (← f a) (← f b) (← f c)
  | _, .param p a b, f => return .param p (← f a) (← f b)
  | _, .decorator p a, f => return .decorator p (← f a)
  | _, .cls p q a b c, f => return .cls p q (← f a) (← f b) (← f c)
  | _, .ctorMember p q a b c, f => return .ctorMember p q (← f a) (← f b) (← f c)
  | _, .methodMember p q r a b, f => return .methodMember p q r (← f a) (← f b)
  | _, .fieldMember p q r a b c, f => return .fieldMember p q r (← f a) (← f b) (← f c)
  | _, .staticBlock p a, f => return .staticBlock p (← f a)
  | _, .emptyMember p, _ => return .emptyMember p
  | _, .blockBody a, f => return .blockBody (← f a)
  | _, .exprBody a, f => return .exprBody (← f a)
  | _, .block p q a, f => return .block p q (← f a)
  | _, .blockStmt a, f => return .blockStmt (← f a)
  | _, .emptyStmt p, _ => return .emptyStmt p
  | _, .debuggerStmt p, _ => return .debuggerStmt p
  | _, .exprStmt p a, f => return .exprStmt p (← f a)
  | _, .withStmt p a b, f => return .withStmt p (← f a) (← f b)
  | _, .returnStmt p a, f => return .returnStmt p (← f a)
  | _, .throwStmt p a, f => return .throwStmt p (← f a)
  | _, .labeledStmt p q a, f => return .labeledStmt p q (← f a)
  | _, .breakStmt p q, _ => return .breakStmt p q
  | _, .continueStmt p q, _ => return .continueStmt p q
  | _, .ifStmt p a b c, f => return .ifStmt p (← f a) (← f b) (← f c)
  | _, .switchStmt p a b, f => return .switchStmt p (← f a) (← f b)
  | _, .tryStmt p a b c, f => return .tryStmt p (← f a) (← f b) (← f c)
  | _, .whileStmt p a b, f => return .whileStmt p (← f a) (← f b)
  | _, .doWhileStmt p a b, f => return .doWhileStmt p (← f a) (← f b)
  | _, .forStmt p a b c d, f => return .forStmt p (← f a) (← f b) (← f c) (← f d)
  | _, .forInStmt p a b c, f => return .forInStmt p (← f a) (← f b) (← f c)
  | _, .forOfStmt p q a b c, f => return .forOfStmt p q (← f a) (← f b) (← f c)
  | _, .declStmt a, f => return .declStmt (← f a)
  | _, .clause p a b, f => return .clause p (← f a) (← f b)
  | _, .handler p a b, f => return .handler p (← f a) (← f b)
  | _, .initDecl a, f => return .initDecl (← f a)
  | _, .initExpr a, f => return .initExpr (← f a)
  | _, .headDecl a, f => return .headDecl (← f a)
  | _, .headUsing p q a, f => return .headUsing p q (← f a)
  | _, .headPat a, f => return .headPat (← f a)
  | _, .declVar a, f => return .declVar (← f a)
  | _, .declFunc p q a, f => return .declFunc p q (← f a)
  | _, .declClass p q a, f => return .declClass p q (← f a)
  | _, .declUsing p q a, f => return .declUsing p q (← f a)
  | _, .varDecl p q r s a, f => return .varDecl p q r s (← f a)
  | _, .declarator p q a b, f => return .declarator p q (← f a) (← f b)
  | _, .stmtItem a, f => return .stmtItem (← f a)
  | _, .importItem p, _ => return .importItem p
  | _, .exportDecl p a, f => return .exportDecl p (← f a)
  | _, .exportNames p, _ => return .exportNames p
  | _, .exportFunc p q a, f => return .exportFunc p q (← f a)
  | _, .exportClass p q a, f => return .exportClass p q (← f a)
  | _, .exportExpr p a, f => return .exportExpr p (← f a)
  | _, .exportAll p q, _ => return .exportAll p q
  | _, .moduleProgram p q a, f => return .moduleProgram p q (← f a)
  | _, .scriptProgram p q a, f => return .scriptProgram p q (← f a)

theorem sizeOf_lt_of_mem_children {c d : Cat} {n : Node c} {k : Node d}
    (h : ⟨d, k⟩ ∈ n.children) : sizeOf k < sizeOf n := by
  have key : ∀ p ∈ n.children, sizeOf p.2 < sizeOf n := by
    cases n <;>
      repeat' first
        | exact List.forall_mem_nil _
        | refine List.forall_mem_cons.2 ⟨by simp; try omega, ?_⟩
  exact key _ h

end Node

end PlainJs
