import PlainJs.Node.Basic

namespace PlainJs

namespace Node

/-- The range of a node that is a part of an expression or a pattern. A node without a range of its
own spans its parts. -/
def span : {c : Cat} → Node c → Span
  | _, .ref id => id.span
  | _, .atom s _ => s
  | _, .array s _ => s
  | _, .object s _ => s
  | _, .function _ f => f.span
  | _, .classExpr _ c => c.span
  | _, .arrow s _ _ _ _ _ => s
  | _, .unary s _ _ => s
  | _, .update s _ _ _ => s
  | _, .binary s _ _ _ => s
  | _, .assign s _ _ _ => s
  | _, .cond s _ _ _ => s
  | _, .seq s _ => s
  | _, .member s _ _ => s
  | _, .superMember s _ _ => s
  | _, .call s _ _ _ => s
  | _, .newCall s _ _ _ => s
  | _, .optMember s _ _ _ _ => s
  | _, .optCall s _ _ _ _ _ => s
  | _, .paren s _ => s
  | _, .template s _ _ => s
  | _, .tagged s _ _ _ _ _ => s
  | _, .yieldExpr s _ _ => s
  | _, .awaitExpr s _ => s
  | _, .binder id => id.span
  | _, .arrayPat s _ _ => s
  | _, .objectPat s _ _ => s
  | _, .restPat s _ _ => s
  | _, .defaultPat s _ _ => s
  | _, .exprPat e => e.span
  | _, .invalidPat s => s
  | _, .keyedPat k p => ⟨k.span.lo, p.span.hi⟩
  | _, .shortPat s _ _ => s
  | _, .restProp s _ _ => s
  | _, .fixedKey s _ => s
  | _, .computedKey s _ => s
  | _, .shortProp id => id.span
  | _, .defaultProp s _ _ => s
  | _, .keyedProp k e => ⟨k.span.lo, e.span.hi⟩
  | _, .getterProp s _ _ => s
  | _, .setterProp s _ _ _ => s
  | _, .methodProp _ f => f.span
  | _, .spreadProp dots e => ⟨dots.lo, e.span.hi⟩
  | _, .plainArg e => e.span
  | _, .spreadArg dots e => ⟨dots.lo, e.span.hi⟩
  | _, .func s _ _ _ _ _ _ => s
  | _, .cls s _ _ _ _ => s
  | _, _ => .none

end Node

end PlainJs
