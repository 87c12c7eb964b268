import TurtleLogo.Session

/-!
Whether two programs are equal is decided by going through them node by node, and what the result
of a computation holds is decided by looking at it. With that the reading of a text can be evaluated
where it is asked for as a proposition.
-/
namespace TurtleLogo

mutual

def Expr.decEq (a b : Expr) : Decidable (a = b) :=
  if same : a.ctorIdx = b.ctorIdx then
    match a, b, same with
    | .number p v, .number q w, _ => decidable_of_iff (p = q ∧ v = w) (by simp)
    | .param p n, .param q m, _ | .var p n, .var q m, _ =>
      decidable_of_iff (p = q ∧ n = m) (by simp)
    | .negate p e, .negate q f, _ | .group p e, .group q f, _ | .random p e, .random q f, _ =>
      have := e.decEq f
      decidable_of_iff (p = q ∧ e = f) (by simp)
    | .binary op l r, .binary op' l' r', _ =>
      have := l.decEq l'
      have := r.decEq r'
      decidable_of_iff (op = op' ∧ l = l' ∧ r = r') (by simp)
    | .call p n args, .call q m args', _ =>
      have := Expr.listDecEq args args'
      decidable_of_iff (p = q ∧ n = m ∧ args = args') (by simp)
  else isFalse fun equal => same (congrArg Expr.ctorIdx equal)

def Expr.listDecEq : (es fs : List Expr) → Decidable (es = fs)
  | [], [] => isTrue rfl
  | e :: es, f :: fs =>
    have := e.decEq f
    have := Expr.listDecEq es fs
    decidable_of_iff (e = f ∧ es = fs) (by simp)
  | [], _ :: _ | _ :: _, [] => isFalse nofun

end

instance : DecidableEq Expr := Expr.decEq

mutual

def Stmt.decEq (a b : Stmt) : Decidable (a = b) :=
  if same : a.ctorIdx = b.ctorIdx then
    match a, b, same with
    | .define p n i params body, .define q m j params' body', _ =>
      have := Stmt.listDecEq body body'
      decidable_of_iff (p = q ∧ n = m ∧ i = j ∧ params = params' ∧ body = body') (by simp)
    | .make p n e, .make q m f, _ => decidable_of_iff (p = q ∧ n = m ∧ e = f) (by simp)
    | .loop p e body, .loop q f body', _ =>
      have := Stmt.listDecEq body body'
      decidable_of_iff (p = q ∧ e = f ∧ body = body') (by simp)
    | .loopCall p e n, .loopCall q f m, _ => decidable_of_iff (p = q ∧ e = f ∧ n = m) (by simp)
    | .pen p way, .pen q way', _ => decidable_of_iff (p = q ∧ way = way') (by simp)
    | .move p way e, .move q way' f, _ | .turn p way e, .turn q way' f, _ =>
      decidable_of_iff (p = q ∧ way = way' ∧ e = f) (by simp)
    | .home p, .home q, _ | .stop p, .stop q, _ => decidable_of_iff (p = q) (by simp)
    | .setXY p x y, .setXY q x' y', _ => decidable_of_iff (p = q ∧ x = x' ∧ y = y') (by simp)
    | .setHeading p e, .setHeading q f, _ | .output p e, .output q f, _ =>
      decidable_of_iff (p = q ∧ e = f) (by simp)
    | .call p n args, .call q m args', _ =>
      decidable_of_iff (p = q ∧ n = m ∧ args = args') (by simp)
    | .test p l op r body, .test q l' op' r' body', _ =>
      have := Stmt.listDecEq body body'
      decidable_of_iff (p = q ∧ l = l' ∧ op = op' ∧ r = r' ∧ body = body') (by simp)
  else isFalse fun equal => same (congrArg Stmt.ctorIdx equal)

def Stmt.listDecEq : (ss ts : List Stmt) → Decidable (ss = ts)
  | [], [] => isTrue rfl
  | s :: ss, t :: ts =>
    have := s.decEq t
    have := Stmt.listDecEq ss ts
    decidable_of_iff (s = t ∧ ss = ts) (by simp)
  | [], _ :: _ | _ :: _, [] => isFalse nofun

end

instance : DecidableEq Stmt := Stmt.decEq

deriving instance DecidableEq for Program, Procedure, Environment, Session, Failure

variable {ε α : Type}

instance decidableEqExcept [DecidableEq ε] [DecidableEq α] : DecidableEq (Except ε α)
  | .ok a, .ok b => decidable_of_iff (a = b) (by simp)
  | .error d, .error e => decidable_of_iff (d = e) (by simp)
  | .ok _, .error _ | .error _, .ok _ => isFalse nofun

instance decidableOk : (r : Except ε α) → Decidable (∃ a, r = .ok a)
  | .ok a => isTrue ⟨a, rfl⟩
  | .error _ => isFalse nofun

instance decidableOkWith (P : α → Prop) [DecidablePred P] :
    (r : Except ε α) → Decidable (∃ a, r = .ok a ∧ P a)
  | .ok a => decidable_of_iff (P a) (by simp)
  | .error _ => isFalse (by simp)

instance decidableError : (r : Except ε α) → Decidable (∃ e, r = .error e)
  | .ok _ => isFalse nofun
  | .error e => isTrue ⟨e, rfl⟩

instance decidableErrorWith (P : ε → Prop) [DecidablePred P] :
    (r : Except ε α) → Decidable (∃ e, r = .error e ∧ P e)
  | .ok _ => isFalse (by simp)
  | .error e => decidable_of_iff (P e) (by simp)

instance decidableDone [DecidableEq α] (v : α) :
    (o : Outcome α) → Decidable (∃ m, o = .done v m)
  | .done w m => decidable_of_iff (w = v) (by simp)
  | .failed .. | .outOfFuel => isFalse nofun

instance decidableFailedWith (P : RuntimeError → Machine → Prop) [∀ e m, Decidable (P e m)] :
    (o : Outcome α) → Decidable (∃ e m, o = .failed e m ∧ P e m)
  | .failed e m => decidable_of_iff (P e m) (by simp [and_assoc])
  | .done .. | .outOfFuel => isFalse (by simp)

end TurtleLogo
