import MarkupCompiler.Syntax.Token
import MarkupCompiler.Syntax.Tree

/-!
# Operators and how tightly they bind
-/

namespace MarkupCompiler.Syntax

/-- How tightly a binary operator binds. -/
def BinaryOp.level : BinaryOp → Nat
  | coalesce => 1
  | or => 2
  | and => 3
  | bitOr => 4
  | bitXor => 5
  | bitAnd => 6
  | looseEq | looseNe | strictEq | strictNe => 7
  | lt | gt | le | ge | isIn | instanceOf => 8
  | shl | shr | ushr => 9
  | add | sub => 10
  | mul | div | mod => 11
  | pow => 12

/-- The binary operator that a punctuator is. -/
def BinaryOp.ofPunct? : Punct → Option BinaryOp
  | .questionQuestion => some coalesce
  | .barBar => some or
  | .ampAmp => some and
  | .bar => some bitOr
  | .caret => some bitXor
  | .amp => some bitAnd
  | .eqEq => some looseEq
  | .notEq => some looseNe
  | .eqEqEq => some strictEq
  | .notEqEq => some strictNe
  | .lt => some lt
  | .gt => some gt
  | .le => some le
  | .ge => some ge
  | .shl => some shl
  | .shr => some shr
  | .ushr => some ushr
  | .plus => some add
  | .minus => some sub
  | .star => some mul
  | .slash => some div
  | .percent => some mod
  | .starStar => some pow
  | _ => none

/-- The assignment operator that a punctuator is. -/
def AssignOp.ofPunct? : Punct → Option AssignOp
  | .eq => some plain
  | .plusEq => some (combined .add)
  | .minusEq => some (combined .sub)
  | .starEq => some (combined .mul)
  | .slashEq => some (combined .div)
  | .percentEq => some (combined .mod)
  | .starStarEq => some (combined .pow)
  | .shlEq => some (combined .shl)
  | .shrEq => some (combined .shr)
  | .ushrEq => some (combined .ushr)
  | .ampEq => some (combined .bitAnd)
  | .barEq => some (combined .bitOr)
  | .caretEq => some (combined .bitXor)
  | .ampAmpEq => some (combined .and)
  | .barBarEq => some (combined .or)
  | .questionQuestionEq => some (combined .coalesce)
  | _ => none

/-- The unary operator that a token is. -/
def UnaryOp.ofToken? : TokenKind → Option UnaryOp
  | .punct .minus => some minus
  | .punct .plus => some plus
  | .punct .bang => some not
  | .punct .tilde => some complement
  | .word _ (some .typeofKw) => some typeof
  | .word _ (some .voidKw) => some void
  | .word _ (some .deleteKw) => some delete
  | _ => none

/-- The update operator that a token is. -/
def UpdateOp.ofToken? : TokenKind → Option UpdateOp
  | .punct .plusPlus => some increment
  | .punct .minusMinus => some decrement
  | _ => none

/-- Whether an operator is `||` or `&&`, which do not mix with `??`. -/
def BinaryOp.isLogical : BinaryOp → Bool
  | or | and => true
  | _ => false

/-- Whether an expression is `||` or `&&` of two operands, without parentheses. -/
def Expr.isLogical : Expr → Bool
  | .binary _ op _ _ => op.isLogical
  | _ => false

end MarkupCompiler.Syntax
