import Backpatch.Proofs.SideBySide
import Backpatch.Proofs.Surroundings

/-!
# Position independence

Compiling an expression, a statement or a block behind some code does not depend on that code but
for the targets of jumps, and these depend only on its length.  The compilations at two places are
run side by side, and what they append is one draft.

The functions around the current one are held fixed on both sides, and their code may differ.  So a
function that is compiled in between is covered as well: its code begins empty on both sides.
-/

namespace Backpatch

namespace Emitter

variable {one two : Ground} {shapes : List Shape}

namespace Alongside

theorem emitAssignment (position : Position) (name : String) (op : StoreOp) (value : Expr) :
    Alongside one two shapes Same (emitAssignment position name op value)
      (emitAssignment position name op value) := by
  refine (resolveVar name position).andThen fun slot => ?_
  cases op.update? with
  | none => exact (emitAs value slot.ty).andThen fun _ => emitStore slot
  | some arith =>
      cases member : arith.instr? slot.ty with
      | none => simpa only [member] using throw_left
      | some instr =>
          simpa only [member] using
            (emitLoad slot).andThen fun _ => (emitAs value slot.ty).andThen fun _ =>
              (emit (width_of_instr member)).andThen fun _ => emitStore slot

theorem emitPrint (arg : Expr) :
    Alongside one two shapes Same (emitPrint arg) (emitPrint arg) := by
  refine (emitExpr arg shapes).bind fun _ _ _ _ compiledAt => ?_
  refine (materializeValue compiledAt).andThen fun ty => ?_
  cases member : Op.print? ty with
  | none => exact throw_left
  | some op => exact emit (width_of_print member)

theorem emitReturn (value : Option Expr) (position : Position) :
    Alongside one two shapes Same (emitReturn value position) (emitReturn value position) := by
  have returnType : Alongside one two shapes
      (fun _ (first second : Emitter) =>
        first.scopes.current.returnType = second.scopes.current.returnType) get get := by
    rintro current covers first second abreast _ _ _ _ ⟨⟩ ⟨⟩
    have sameType : first.blind.scopes.current.returnType =
        second.blind.scopes.current.returnType := by
      rw [abreast.blind]
    exact ⟨current, .refl _, abreast, sameType⟩
  refine returnType.seq fun first second sameType => ?_
  dsimp only
  rw [sameType]
  cases value with
  | none =>
      dsimp only
      split
      · exact emit rfl
      · exact throw_left
  | some value =>
      dsimp only
      split
      · exact throw_left
      · exact (emitAs value _).andThen fun _ => emit rfl

theorem emitDiscarded (value : Expr) :
    Alongside one two shapes Same (emitDiscarded value) (emitDiscarded value) := by
  refine (emitExpr value shapes).bind fun _ _ _ _ compiledAt => ?_
  cases compiledAt with
  | branch branch => exact resolve branch
  | value ty =>
      cases ty with
      | void => exact same ()
      | logic | int | double | string | invalid => exact emit rfl

theorem emitIf {thenBlock elseBlock : EmitM Unit}
    (thenRuns : ∀ shapes, Alongside one two shapes Same thenBlock thenBlock)
    (elseRuns : ∀ shapes, Alongside one two shapes Same elseBlock elseBlock) (cond : Expr) :
    Alongside one two shapes Same (emitIf cond thenBlock elseBlock)
      (emitIf cond thenBlock elseBlock) := by
  -- The sites of the three jumps are still known when they are patched, behind more code.
  refine emitJump.bind fun started _ _ _ toCond => offset.seq fun _ _ thenStart => ?_
  refine (thenRuns started).andThen fun _ => ?_
  refine emitJump.bind fun thenDone thenGrown _ _ thenExit => offset.seq fun _ _ elseStart => ?_
  refine (elseRuns thenDone).andThen fun _ => ?_
  refine emitJump.bind fun elseDone elseGrown _ _ elseExit => offset.seq fun _ _ condStart => ?_
  have toCond := toCond.mono (thenGrown.trans elseGrown)
  refine (patch (.cons toCond .nil) condStart).andThen fun _ => ?_
  refine (emitCondition cond).bind fun _ condGrown _ _ branch => ?_
  have thenExit := thenExit.mono (elseGrown.trans condGrown)
  have elseExit := elseExit.mono condGrown
  exact (patch branch.onTrue thenStart).andThen fun _ =>
    (patch branch.onFalse elseStart).andThen fun _ => offset.seq fun _ _ done =>
      patch (.cons thenExit (.cons elseExit .nil)) done

theorem emitWhile {body : EmitM Unit}
    (bodyRuns : ∀ shapes, Alongside one two shapes Same body body) (cond : Expr) :
    Alongside one two shapes Same (emitWhile cond body) (emitWhile cond body) := by
  refine offset.seq fun _ _ condStart => ?_
  refine (emitCondition cond).bind fun tested _ _ _ branch => offset.seq fun _ _ bodyStart => ?_
  exact (bodyRuns tested).andThen fun _ => (emitJumpTo condStart).andThen fun _ =>
    offset.seq fun _ _ exit => (patch branch.onTrue bodyStart).andThen fun _ =>
      patch branch.onFalse exit

theorem emitFor {body : EmitM Unit} (bodyRuns : ∀ shapes, Alongside one two shapes Same body body)
    (position : Position) (name : String) (low high : Expr) :
    Alongside one two shapes Same (emitFor position name low high body)
      (emitFor position name low high body) := by
  refine (resolveVar name position).andThen fun slot => ?_
  cases Numeric.ofTy? slot.ty with
  | none => exact throw_left
  | some numeric =>
      refine (onScopes (Scopes.blindly_allocateHidden? slot.ty) _).andThen fun bound => ?_
      refine (emitAs low slot.ty).andThen fun _ => (emitStore slot).andThen fun _ => ?_
      refine (emitAs high slot.ty).andThen fun _ => (emitStore bound).andThen fun _ => ?_
      refine offset.seq fun _ _ head => (emitLoad slot).andThen fun _ => ?_
      refine (emitLoad bound).andThen fun _ => (emit (by cases numeric <;> rfl)).andThen fun _ => ?_
      refine (emit rfl).andThen fun _ => (emitBranch rfl).bind fun tested _ _ _ branch => ?_
      refine offset.seq fun _ _ bodyStart => (bodyRuns tested).andThen fun _ => ?_
      exact (emitLoad slot).andThen fun _ => (emit (by cases numeric <;> rfl)).andThen fun _ =>
        (emit (by cases numeric <;> rfl)).andThen fun _ => (emitStore slot).andThen fun _ =>
          (emitJumpTo head).andThen fun _ => offset.seq fun _ _ exit =>
            (patch branch.onTrue bodyStart).andThen fun _ => patch branch.onFalse exit

theorem declareBlock (vars : List VarDecl) (functions : List FnDef) :
    Alongside one two shapes Same (declareBlock vars functions) (declareBlock vars functions) := by
  refine (forM (fun var => ?_) vars).andThen fun _ => ?_
  · exact (onScopes (Scopes.blindly_declare? _ _) _).andThen fun _ => same ()
  · induction functions with
    | nil => exact same _
    | cons definition definitions ih =>
        rw [List.mapM_cons]
        refine andThen ?_ fun id => ih.andThen fun ids => same _
        exact (onImage _).andThen fun id =>
          (onScopes (Scopes.blindly_declareFunction? _ id) _).andThen fun _ => same id

theorem enterBlock : Alongside one two shapes Same (modify entered : EmitM Unit)
    (modify entered) :=
  changes (fun _ => rfl) (fun _ => rfl) fun _ => rfl

theorem exitBlock : Alongside one two shapes Same (modify exited : EmitM Unit)
    (modify exited) :=
  changes (fun _ => rfl) (fun _ => rfl) fun _ => rfl

theorem emitParam (position : Position) (param : ParamDecl) :
    Alongside one two shapes Same (emitParam position param) (emitParam position param) :=
  (onScopes (Scopes.blindly_declareParam? _ _) _).andThen fun slot => emitStore slot

theorem emitNativeCall (options : Options) (position : Position) (signature : Signature)
    (symbol : String) :
    Alongside one two shapes Same (emitNativeCall options position signature symbol)
      (emitNativeCall options position signature symbol) := by
  unfold Emitter.emitNativeCall
  cases options.address? symbol with
  | none => exact throw_left
  | some address => exact (onImage _).andThen fun id => emitWithWord rfl rfl id

theorem closed_of_closeFunction {before after : Emitter} {outer : Context}
    {enclosing : List Context} (enclosed : before.scopes.enclosing = outer :: enclosing)
    (ran : Strict.closeFunction before = .ok () after) : before.closed outer enclosing = after := by
  obtain ⟨_, middle, asked, closing⟩ := exists_of_bind_eq_ok ran
  have unchanged : before = middle := by
    unfold Emitter.ask at asked
    cases fault : Strict.closingFault? before <;> simp only [fault] at asked <;> cases asked
    rfl
  subst unchanged
  rcases Confined.closeFunction_eq enclosed with closed | ⟨error, failed⟩
  · cases closed.symm.trans closing
    rfl
  · cases failed.symm.trans closing

/-- A function that is compiled in between is the same on both sides: its code begins empty. -/
theorem function {body : EmitM Unit}
    (runs : ∀ one two shapes, Alongside one two shapes Same body body) (id : UInt16)
    (returnType : Ty) :
    Alongside one two shapes Same (Strict.function id returnType body)
      (Strict.function id returnType body) := by
  intro current covers first second abreast _ after _ otherAfter ran otherRan
  obtain ⟨_, inner, bodyRan, closing⟩ := exists_of_bind_eq_ok
    (show (body >>= fun _ => Strict.closeFunction) (first.pushed id returnType) = _ from ran)
  obtain ⟨_, otherInner, otherBodyRan, otherClosing⟩ := exists_of_bind_eq_ok
    (show (body >>= fun _ => Strict.closeFunction) (second.pushed id returnType) = _ from otherRan)
  -- The code of the current function is part of the ground while the inner one is compiled.
  have begins : Abreast (.within first) (.within second) [] (first.pushed id returnType)
      (second.pushed id returnType) := by
    refine ⟨?_, ⟨.refl _, rfl⟩, ⟨.refl _, rfl⟩⟩
    exact congrArg (·.pushed id returnType) abreast.blind
  obtain ⟨later, -, ⟨blind, onOne, onTwo⟩, -⟩ := runs _ _ [] [] (.refl _) _ _ begins _ _ _ _ bodyRan
    otherBodyRan
  have sameBuffer : inner.buffer = otherInner.buffer := onOne.code.unique onTwo.code
  have around := abreast.blind
  simp only [Emitter.blind, Scopes.blind, Emitter.mk.injEq, Scopes.mk.injEq] at blind around
  have sameCurrent := Context.eq_of_blind blind.2.1.1 sameBuffer
  cases closed_of_closeFunction onOne.enclosing closing
  cases closed_of_closeFunction onTwo.enclosing otherClosing
  refine ⟨current, .refl _, ⟨?_, ⟨abreast.first.code, abreast.first.enclosing⟩,
    ⟨abreast.second.code, abreast.second.enclosing⟩⟩, rfl⟩
  simp only [Emitter.blind, Scopes.blind, closed, sameCurrent, blind, around]

mutual

/-- The code of a statement is the same draft wherever it stands. -/
theorem stmt (options : Options) : (statement : Stmt) → (one two : Ground) →
    (shapes : List Shape) →
    Alongside one two shapes Same (Strict.stmt options statement) (Strict.stmt options statement)
  | .store .., _, _, _ => emitAssignment _ _ _ _
  | .ifElse cond thenBlock none, one, two, _ =>
      emitIf (block options thenBlock one two) (fun _ => same ()) cond
  | .ifElse cond thenBlock (some elseBlock), one, two, _ =>
      emitIf (block options thenBlock one two) (block options elseBlock one two) cond
  | .whileDo cond body, one, two, _ => emitWhile (block options body one two) cond
  | .forRange _ _ _ _ body, one, two, _ => emitFor (block options body one two) _ _ _ _
  | .print _ args, _, _, _ => forM emitPrint args
  | .ret .., _, _, _ => emitReturn _ _
  | .expr value, _, _, _ => emitDiscarded value
  | .block body, one, two, shapes => block options body one two shapes

theorem stmts (options : Options) : (statements : List Stmt) → (one two : Ground) →
    (shapes : List Shape) →
    Alongside one two shapes Same (Strict.stmts options statements)
      (Strict.stmts options statements)
  | [], _, _, _ => same ()
  | first :: rest, one, two, shapes =>
      (stmt options first one two shapes).andThen fun _ => stmts options rest one two shapes

theorem block (options : Options) : (statements : Block) → (one two : Ground) →
    (shapes : List Shape) →
    Alongside one two shapes Same (Strict.block options statements)
      (Strict.block options statements)
  | ⟨vars, functions, statements⟩, one, two, shapes => by
      refine andThen enterBlock fun _ => ?_
      refine (declareBlock vars functions).andThen fun ids => ?_
      refine (Alongside.functions options functions ids one two shapes).andThen fun _ => ?_
      refine (stmts options statements one two shapes).andThen fun _ => ?_
      exact exitBlock

theorem functions (options : Options) : (definitions : List FnDef) → (ids : List UInt16) →
    (one two : Ground) → (shapes : List Shape) →
    Alongside one two shapes Same (Strict.functions options definitions ids)
      (Strict.functions options definitions ids)
  | definition :: definitions, id :: ids, one, two, shapes =>
      (function (body options definition) id definition.returnType).andThen fun _ =>
        functions options definitions ids one two shapes
  | [], _, _, _, _ => same ()
  | _ :: _, [], _, _, _ => same ()

theorem body (options : Options) : (definition : FnDef) → (one two : Ground) →
    (shapes : List Shape) →
    Alongside one two shapes Same (Strict.body options definition) (Strict.body options definition)
  | ⟨_, _, params, .block statements, position⟩, one, two, shapes =>
      (forM (emitParam position) params).andThen fun _ =>
        (block options statements one two shapes).andThen fun _ => emit rfl
  | ⟨_, _, _, .native _, _⟩, _, _, _ => (emitNativeCall _ _ _ _).andThen fun _ => emit rfl

end

end Alongside

end Emitter

/-- The second site is as far from its base as the first one from the other base. -/
def Site.Moves (base other : Nat) (site moved : Site) : Prop :=
  base ≤ site.offset ∧ moved.offset + base = site.offset + other

namespace Emitter

/-- What two compilations have left that began with different code.  Behind that code they have
written as many bytes, which read as the same instructions but for jump targets.  The open sites
among these bytes are the same.  In front of them nothing has changed, and the states agree on all
else. -/
structure Relocated (base other : Buffer) (one two : Emitter) : Prop where
  rest : two = one.withBuffer two.buffer
  kept : base.toList <+: one.buffer.toList ∧ other.toList <+: two.buffer.toList
  length : two.buffer.size + base.size = one.buffer.size + other.size
  instrs : ∃ instrs moved,
    Decoded.readFrom base.size (one.buffer.toList.drop base.size) [] = ⟨instrs, none⟩ ∧
    Decoded.readFrom other.size (two.buffer.toList.drop other.size) [] = ⟨moved, none⟩ ∧
    List.Forall₂ (Instr.Moves base.size other.size one.buffer two.buffer) instrs moved
  sites : ∀ place,
    base.size + place ∈ one.buffer.openSites ↔ other.size + place ∈ two.buffer.openSites
  earlier : (∀ offset < base.size, offset ∈ one.buffer.openSites ↔ offset ∈ base.openSites) ∧
    ∀ offset < other.size, offset ∈ two.buffer.openSites ↔ offset ∈ other.openSites

theorem eq_withBuffer_of_blind {one two : Emitter} (blind : one.blind = two.blind)
    (enclosing : one.scopes.enclosing = two.scopes.enclosing) :
    two = one.withBuffer two.buffer := by
  obtain ⟨_, ⟨⟨_, _, _, _, _, _, _⟩, _, _⟩, _⟩ := one
  obtain ⟨_, ⟨⟨_, _, _, _, _, _, _⟩, _, _⟩, _⟩ := two
  cases enclosing
  cases blind
  rfl

theorem Abreast.relocated {one two : Ground} {shapes : List Shape} {first second : Emitter}
    (abreast : Abreast one two shapes first second) (same : one.enclosing = two.enclosing) :
    Relocated one.buffer two.buffer first second := by
  obtain ⟨blind, ⟨code, enclosing⟩, ⟨otherCode, otherEnclosing⟩⟩ := abreast
  exact
    { rest := eq_withBuffer_of_blind blind (enclosing.trans (same.trans otherEnclosing.symm))
      kept := ⟨⟨_, code.bytes.symm⟩, ⟨_, otherCode.bytes.symm⟩⟩
      length := by
        rw [code.size_eq, otherCode.size_eq]
        omega
      instrs := ⟨_, _, code.readFrom, otherCode.readFrom,
        Draft.forall₂_moves code otherCode one.inside two.inside⟩
      sites := fun place =>
        (code.mem_openSites one.inside).trans (otherCode.mem_openSites two.inside).symm
      earlier := ⟨fun _ => code.mem_openSites_of_lt, fun _ => otherCode.mem_openSites_of_lt⟩ }

theorem SiteAt.moves {one two : Ground} {shapes : List Shape} {gap : Gap} {site other : Site}
    (siteAt : SiteAt one two gap shapes site other) :
    site.Moves one.buffer.size two.buffer.size other := by
  obtain ⟨place, -, offset, otherOffset⟩ := siteAt
  unfold Site.Moves
  omega

/-- The ground of a state in which the current function has the given code. -/
def Ground.under (emitter : Emitter) (buffer : Buffer)
    (inside : ∀ offset ∈ buffer.openSites, offset < buffer.size) : Ground :=
  ⟨buffer, emitter.scopes.enclosing, inside⟩

/-- Generated code does not depend on where it stands but for its jump targets.  If an expression, a
statement or a block is compiled without an error from two states that differ only in the code of
the current function, what has been written is the same up to the distance between the two places,
the sites of a condition are that far apart, and all else is the same.  The open sites of the code
that was there before are inside of it. -/
theorem relocated_of_emit (options : Options) (emitter : Emitter) {base other : Buffer}
    (inside : ∀ offset ∈ base.openSites, offset < base.size)
    (otherInside : ∀ offset ∈ other.openSites, offset < other.size) :
    (∀ expr compiled one otherCompiled two,
      emitExpr expr (emitter.withBuffer base) = .ok compiled one →
      emitExpr expr (emitter.withBuffer other) = .ok otherCompiled two →
      Relocated base other one two ∧
        compiled.Rel (Site.Moves base.size other.size) otherCompiled) ∧
    (∀ stmt one two,
      emitStmt options stmt (emitter.withBuffer base) = .ok () one → one.fault = none →
      emitStmt options stmt (emitter.withBuffer other) = .ok () two → two.fault = none →
      Relocated base other one two) ∧
    ∀ block one two,
      emitBlock options block (emitter.withBuffer base) = .ok () one → one.fault = none →
      emitBlock options block (emitter.withBuffer other) = .ok () two → two.fault = none →
      Relocated base other one two := by
  have begins : Abreast (.under emitter base inside) (.under emitter other otherInside) []
      (emitter.withBuffer base) (emitter.withBuffer other) :=
    ⟨rfl, ⟨.refl _, rfl⟩, ⟨.refl _, rfl⟩⟩
  refine ⟨fun expr compiled one otherCompiled two ran otherRan => ?_,
    fun stmt one two ran noFault otherRan otherNoFault => ?_,
    fun block one two ran noFault otherRan otherNoFault => ?_⟩
  · obtain ⟨later, -, abreast, compiledAt⟩ := Alongside.emitExpr expr [] [] (.refl _) _ _ begins
      _ _ _ _ ran otherRan
    exact ⟨abreast.relocated rfl, compiledAt.imp fun _ _ siteAt => siteAt.moves⟩
  · have latches := Latches.emitStmt options stmt
    obtain ⟨later, -, abreast, -⟩ := Alongside.stmt options stmt _ _ [] [] (.refl _) _ _ begins
      _ _ _ _ (latches.eq_ok ran noFault) (latches.eq_ok otherRan otherNoFault)
    exact abreast.relocated rfl
  · have latches := Latches.emitBlock options block
    obtain ⟨later, -, abreast, -⟩ := Alongside.block options block _ _ [] [] (.refl _) _ _ begins
      _ _ _ _ (latches.eq_ok ran noFault) (latches.eq_ok otherRan otherNoFault)
    exact abreast.relocated rfl

/-- Code that consists of a jump whose target is open. -/
def openJump : Buffer :=
  (Buffer.empty.emit .jump).reserveWord.2

theorem relocated_of_emit_halving :
    (∃ one two, emitBlock .default .halving (start .halving) = .ok () one ∧ one.fault = none ∧
      emitBlock .default .halving ((start .halving).withBuffer openJump) = .ok () two ∧
      two.fault = none ∧ Relocated .empty openJump one two) ∧
    ∃ compiled moved one two,
      emitExpr (.binary 0 (.logic .and) (.int 1 1) (.int 2 0)) (start .halving) =
        .ok (.branch compiled) one ∧
      emitExpr (.binary 0 (.logic .and) (.int 1 1) (.int 2 0))
        ((start .halving).withBuffer openJump) = .ok (.branch moved) two ∧
      Relocated .empty openJump one two ∧ compiled.Rel (Site.Moves 0 3) moved := by
  have inside : ∀ offset ∈ Buffer.empty.openSites, offset < Buffer.empty.size :=
    fun _ member => absurd member Std.ExtTreeSet.not_mem_empty
  have openInside : ∀ offset ∈ openJump.openSites, offset < openJump.size := by
    intro offset member
    rcases Buffer.mem_openAt.mp member with known | rfl
    · exact absurd known Std.ExtTreeSet.not_mem_empty
    · decide
  obtain ⟨exprs, -, blocks⟩ := relocated_of_emit .default (start .halving) inside openInside
  constructor
  · obtain ⟨_, one, ran⟩ := Total.emitBlock .default .halving (start .halving)
    obtain ⟨_, two, otherRan⟩ :=
      Total.emitBlock .default .halving ((start .halving).withBuffer openJump)
    have clean : (firstError (emitBlock .default .halving (start .halving))).isNone = true := by
      decide +kernel
    have otherClean : (firstError (emitBlock .default .halving
        ((start .halving).withBuffer openJump))).isNone = true := by
      decide +kernel
    rw [ran] at clean
    rw [otherRan] at otherClean
    have noFault : one.fault = none := Option.isNone_iff_eq_none.mp clean
    have otherNoFault : two.fault = none := Option.isNone_iff_eq_none.mp otherClean
    exact ⟨one, two, ran, noFault, otherRan, otherNoFault,
      blocks _ one two ran noFault otherRan otherNoFault⟩
  · obtain ⟨relocated, sites⟩ :=
      exprs (.binary 0 (.logic .and) (.int 1 1) (.int 2 0)) _ _ _ _ rfl rfl
    cases sites with
    | branch sites => exact ⟨_, _, _, _, rfl, rfl, relocated, sites⟩

end Emitter

end Backpatch
