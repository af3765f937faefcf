import ConditionalAssembly.Context
import ConditionalAssembly.Proofs.Expr.Nesting
import ConditionalAssembly.Proofs.Resolution.Places

/-!
# Where diagnostics point

Evaluation reports at ranges of parts of the tree that it evaluates, and these
are no further than the ranges of what was read.
-/

namespace ConditionalAssembly

/-- Whatever is reported stands up to a column. -/
def Reported.PointsUpTo {α : Type} (limit : Nat) (reported : Reported α) : Prop :=
  ∀ diagnostic ∈ reported.diagnostics, diagnostic.PointsUpTo limit

section

variable {limit : Nat}

namespace Reported

variable {α β : Type}

theorem pointsUpTo_pure (value : α) : (pure value : Reported α).PointsUpTo limit :=
  nofun

theorem pointsUpTo_report {range : Range} (upTo : range.UpTo limit) (problem : Problem)
    (value : α) : (report problem range value).PointsUpTo limit :=
  List.forall_mem_singleton.mpr (upTo.pointsUpTo problem)

theorem PointsUpTo.bind {first : Reported α} {next : α → Reported β}
    (points : first.PointsUpTo limit) (further : (next first.value).PointsUpTo limit) :
    (first >>= next).PointsUpTo limit :=
  List.forall_mem_append.mpr ⟨points, further⟩

theorem PointsUpTo.map {first : Reported α} (points : first.PointsUpTo limit) (f : α → β) :
    (f <$> first).PointsUpTo limit := by
  rwa [PointsUpTo, diagnostics_map]

end Reported

namespace Evaluation

open Reported

section

variable {range : Range} (upTo : range.UpTo limit)

include upTo

theorem pointsUpTo_conform (expected : Domain) (value : Value) :
    (conform expected range value).PointsUpTo limit := by
  unfold conform
  split
  next => exact pointsUpTo_pure _
  next =>
    split
    next => exact pointsUpTo_pure _
    next => exact pointsUpTo_pure _
    next => exact pointsUpTo_report upTo _ _

theorem pointsUpTo_limited (value : Value) : (limited range value).PointsUpTo limit := by
  unfold limited
  split
  next =>
    split
    next => exact pointsUpTo_pure _
    next => exact pointsUpTo_report upTo _ _
  next => exact pointsUpTo_pure _

theorem pointsUpTo_settle (domain : Option Domain) {computed : Reported (Except Problem Value)}
    (points : computed.PointsUpTo limit) : (settle domain range computed).PointsUpTo limit := by
  cases domain with
  | none => exact pointsUpTo_report upTo _ _
  | some domain =>
      apply points.bind
      cases computed.value with
      | ok value => exact (pointsUpTo_limited upTo value).bind (pointsUpTo_conform upTo _ _)
      | error problem => exact pointsUpTo_report upTo _ _

theorem pointsUpTo_number {computed : Reported Value} (points : computed.PointsUpTo limit) :
    (number range computed).PointsUpTo limit :=
  points.bind ((pointsUpTo_conform upTo _ _).bind (pointsUpTo_pure _))

theorem pointsUpTo_duplicate (text : String) (factor : Int32) :
    (duplicate range text factor).PointsUpTo limit := by
  unfold duplicate
  split
  next => exact pointsUpTo_pure _
  next =>
    dsimp only
    split
    next => exact pointsUpTo_pure _
    next => exact pointsUpTo_report upTo _ _

end

end Evaluation

end

/-! ## Trees -/

open Evaluation Reported

section

variable {store : Store} {limit : Nat}

mutual

/-- Evaluation reports no further than the expression stands. -/
theorem Expr.pointsUpTo_evaluate :
    ∀ expr : Expr, (Part.term expr).StaysUpTo limit → (expr.evaluate store).PointsUpTo limit
  | .constant _ _ _, stays | .symbol _ _ _, stays | .symbolAttribute _ _ _ _, stays =>
      pointsUpTo_settle stays.upTo _ (pointsUpTo_pure _)
  | .unresolved _ _, stays => pointsUpTo_settle stays.upTo _ (pointsUpTo_pure _)
  | .variableTerm reference _, stays => by
      obtain ⟨upTo, children⟩ := Part.staysUpTo_iff.mp stays
      have inner := reference.pointsUpTo_evaluate (List.forall_mem_singleton.mp children)
      exact pointsUpTo_settle upTo _ inner
  | .variableAttribute kind reference _ _, stays => by
      obtain ⟨upTo, children⟩ := Part.staysUpTo_iff.mp stays
      have inner := reference.pointsUpTo_evaluateAttribute kind (List.forall_mem_singleton.mp children)
      exact pointsUpTo_settle upTo _ inner
  | .string term range domain, stays => by
      obtain ⟨upTo, children⟩ := Part.staysUpTo_iff.mp stays
      have inner := term.pointsUpTo_evaluate upTo children
      exact pointsUpTo_settle upTo _ (inner.map _)
  | .resolved root recovered _ _, stays => by
      obtain ⟨upTo, children⟩ := Part.staysUpTo_iff.mp stays
      refine pointsUpTo_settle upTo _ ?_
      cases recovered with
      | true => exact pointsUpTo_pure _
      | false => exact (root.pointsUpTo_evaluate (List.forall_mem_singleton.mp children)).map _
  | .unary operator operand _ _ _, stays => by
      obtain ⟨upTo, children⟩ := Part.staysUpTo_iff.mp stays
      have inner := List.forall_mem_singleton.mp children
      have points := operand.pointsUpTo_evaluate inner
      exact pointsUpTo_settle upTo _
        (points.bind ((pointsUpTo_conform inner.upTo _ _).bind (pointsUpTo_pure _)))
  | .binary operator left right _ _ _, stays => by
      obtain ⟨upTo, children⟩ := Part.staysUpTo_iff.mp stays
      obtain ⟨first, others⟩ := List.forall_mem_cons.mp children
      have second := List.forall_mem_singleton.mp others
      have pointsLeft := left.pointsUpTo_evaluate first
      have pointsRight := right.pointsUpTo_evaluate second
      exact pointsUpTo_settle upTo _ (pointsLeft.bind ((pointsUpTo_conform first.upTo _ _).bind
        (pointsRight.bind ((pointsUpTo_conform second.upTo _ _).bind (pointsUpTo_pure _)))))

theorem VariableSymbol.pointsUpTo_evaluate :
    ∀ reference : VariableSymbol, (Part.reference reference).StaysUpTo limit →
      (reference.evaluate store).PointsUpTo limit
  | ⟨name, subscript, _⟩, stays => by
      obtain ⟨inName, inSubscript⟩ := List.forall_mem_append.mp (Part.staysUpTo_iff.mp stays).2
      have named := name.pointsUpTo_evaluate (List.forall_mem_map.mp inName)
      have words := pointsUpTo_evaluateWords subscript (List.forall_mem_map.mp inSubscript)
      exact named.bind (words.bind (pointsUpTo_pure _))

theorem VariableSymbol.pointsUpTo_evaluateAttribute (kind : Attribute) :
    ∀ reference : VariableSymbol, (Part.reference reference).StaysUpTo limit →
      (reference.evaluateAttribute store kind).PointsUpTo limit
  | ⟨name, subscript, _⟩, stays => by
      obtain ⟨inName, inSubscript⟩ := List.forall_mem_append.mp (Part.staysUpTo_iff.mp stays).2
      have named := name.pointsUpTo_evaluate (List.forall_mem_map.mp inName)
      have words := pointsUpTo_evaluateWords subscript (List.forall_mem_map.mp inSubscript)
      rw [VariableSymbol.evaluateAttribute]
      refine named.bind ?_
      split
      next => exact pointsUpTo_pure _
      next => exact words.bind (pointsUpTo_pure _)

theorem VariableName.pointsUpTo_evaluate :
    ∀ name : VariableName,
      (∀ symbol ∈ name.references, (Part.reference symbol).StaysUpTo limit) →
      (name.evaluate store).PointsUpTo limit
  | .basic _, _ => pointsUpTo_pure _
  | .created chain, stays => (pointsUpTo_evaluateChain chain stays).map _

theorem StringTerm.pointsUpTo_evaluate {range : Range} (upTo : range.UpTo limit) :
    ∀ term : StringTerm,
      (∀ part ∈ Part.ofText term.duplication term.chain ++ Part.ofSelection term.selection,
        part.StaysUpTo limit) →
      (term.evaluate store range).PointsUpTo limit
  | ⟨none, chain, selection⟩, stays => by
      obtain ⟨inText, inBounds⟩ := List.forall_mem_append.mp stays
      have text := pointsUpTo_evaluateChain chain (List.forall_mem_map.mp inText)
      exact text.bind (selection.pointsUpTo_evaluate _ inBounds)
  | ⟨some factor, chain, selection⟩, stays => by
      obtain ⟨inText, inBounds⟩ := List.forall_mem_append.mp stays
      obtain ⟨inFactor, inChain⟩ := List.forall_mem_cons.mp inText
      have text := pointsUpTo_evaluateChain chain (List.forall_mem_map.mp inChain)
      have copies := pointsUpTo_number inFactor.upTo (factor.pointsUpTo_evaluate inFactor)
      refine text.bind ((selection.pointsUpTo_evaluate _ inBounds).bind ?_)
      split
      next => exact pointsUpTo_pure _
      next => exact copies.bind (pointsUpTo_duplicate upTo _ _)

theorem Selection.pointsUpTo_evaluate (text : String) :
    ∀ selection : Selection, (∀ part ∈ Part.ofSelection selection, part.StaysUpTo limit) →
      (selection.evaluate store text).PointsUpTo limit
  | ⟨none, _, _⟩, _ => pointsUpTo_pure _
  | ⟨some start, none, _⟩, stays => by
      have first := List.forall_mem_singleton.mp stays
      exact (pointsUpTo_number first.upTo (start.pointsUpTo_evaluate first)).bind
        (pointsUpTo_pure _)
  | ⟨some start, some count, toEnd⟩, stays => by
      obtain ⟨first, others⟩ := List.forall_mem_cons.mp stays
      have second := List.forall_mem_singleton.mp others
      have words := pointsUpTo_number second.upTo (count.pointsUpTo_evaluate second)
      rw [Selection.evaluate]
      refine (pointsUpTo_number first.upTo (start.pointsUpTo_evaluate first)).bind ?_
      split
      next => exact pointsUpTo_pure _
      next => exact words.bind (pointsUpTo_pure _)

theorem ChainItem.pointsUpTo_evaluate :
    ∀ item : ChainItem,
      (∀ symbol ∈ item.references, (Part.reference symbol).StaysUpTo limit) →
      (item.evaluate store).PointsUpTo limit
  | .text _, _ | .dot, _ | .equals, _ => pointsUpTo_pure _
  | .variableItem reference, stays => by
      have inner := stays reference (List.mem_singleton_self _)
      refine (reference.pointsUpTo_evaluate inner).bind ?_
      split
      next => exact pointsUpTo_pure _
      next => exact pointsUpTo_report inner.upTo _ _
  | .sublist members, stays => pointsUpTo_evaluateMembers members stays

theorem pointsUpTo_evaluateChain :
    ∀ chain : List ChainItem,
      (∀ symbol ∈ referencesOfChain chain, (Part.reference symbol).StaysUpTo limit) →
      (evaluateChain store chain).PointsUpTo limit
  | [], _ => pointsUpTo_pure _
  | item :: rest, stays => by
      obtain ⟨first, others⟩ := List.forall_mem_append.mp stays
      exact (item.pointsUpTo_evaluate first).bind
        ((pointsUpTo_evaluateChain rest others).bind (pointsUpTo_pure _))

theorem pointsUpTo_evaluateMembers :
    ∀ members : List (List ChainItem),
      (∀ symbol ∈ referencesOfMembers members, (Part.reference symbol).StaysUpTo limit) →
      (evaluateMembers store members).PointsUpTo limit
  | [], _ => pointsUpTo_pure _
  | chain :: rest, stays => by
      obtain ⟨first, others⟩ := List.forall_mem_append.mp stays
      exact (pointsUpTo_evaluateChain chain first).bind
        ((pointsUpTo_evaluateMembers rest others).bind (pointsUpTo_pure _))

theorem pointsUpTo_evaluateWords :
    ∀ exprs : List Expr, (∀ expr ∈ exprs, (Part.term expr).StaysUpTo limit) →
      (evaluateWords store exprs).PointsUpTo limit
  | [], _ => pointsUpTo_pure _
  | expr :: rest, stays => by
      obtain ⟨first, others⟩ := List.forall_mem_cons.mp stays
      exact (pointsUpTo_number first.upTo (expr.pointsUpTo_evaluate first)).bind
        ((pointsUpTo_evaluateWords rest others).bind (pointsUpTo_pure _))

end

end

/-! ## Sources -/

/-- An expression that is read stands on its source with all its parts. -/
theorem Expr.staysUpTo_read {source : String} {expr : Expr} (read : Expr.read source = .ok expr) :
    (Part.term expr).StaysUpTo source.utf8ByteSize := by
  obtain ⟨range, throughout⟩ := Expr.fits_read read
  intro inner inside
  rcases Part.between_of_inside throughout inside with rfl | between
  · exact ⟨0, source.utf8ByteSize, range, Nat.zero_le _, Nat.le_refl _⟩
  · rw [Part.range, range] at between
    obtain ⟨start, stop, place, _, nonempty, behind⟩ := between
    exact ⟨start, stop, place, Nat.le_of_lt nonempty, behind⟩

/-- Every diagnostic that is added while a source is calculated points into the source; only a
missing operand may be reported on the column behind it. -/
theorem Context.calculateSource_points {source : String} {expr : Expr}
    (read : Expr.read source = .ok expr) (context : Context) (domain : Domain) :
    ∃ value added,
      context.calculateSource domain source =
        .ok (value, { context with diagnostics := context.diagnostics ++ added }) ∧
      ∀ diagnostic ∈ added, ∃ start stop, diagnostic.range = .columns start stop ∧ start ≤ stop ∧
        stop ≤ source.utf8ByteSize + 1 ∧
        (diagnostic.problem ≠ .missingOperand → stop ≤ source.utf8ByteSize) := by
  have located := (expr.settles (Expr.staysUpTo_read read)).located domain
  let resolved := expr.resolve domain
  let evaluated := resolved.value.evaluateAs context.store domain
  have stays := located.parts _ (List.mem_singleton_self _)
  have points : evaluated.PointsUpTo source.utf8ByteSize :=
    (resolved.value.pointsUpTo_evaluate stays).bind (pointsUpTo_conform stays.upTo _ _)
  refine ⟨evaluated.value, resolved.diagnostics ++ evaluated.diagnostics, ?_, ?_⟩
  · rw [Context.calculateSource, read, ← List.append_assoc]
    rfl
  · exact List.forall_mem_append.mpr ⟨located.diagnostics, points⟩

/-- In `&B+` the missing operand is reported on the column behind the source. -/
theorem Context.calculateSource_points_missing :
    ∃ value added,
      Context.calculateSource {} .arithmetic "&B+" = .ok (value, ⟨{}, added⟩) ∧
      added = [⟨.missingOperand, .columns 3 4⟩] ∧
      ∀ diagnostic ∈ added, ∃ start stop, diagnostic.range = .columns start stop ∧
        start ≤ stop ∧ stop ≤ 3 + 1 ∧ (diagnostic.problem ≠ .missingOperand → stop ≤ 3) := by
  have read : Expr.read "&B+" = .ok (.unresolved
      [.variableTerm ⟨.basic "B", [], .columns 0 2⟩ none, .symbol "+" (.columns 2 3) none]
      (.columns 0 3)) := by cbv
  obtain ⟨value, added, calculated, points⟩ :=
    Context.calculateSource_points read {} .arithmetic
  have calculatedIs : Context.calculateSource {} .arithmetic "&B+" =
      .ok (.arithmetic 0, ⟨{}, [⟨.missingOperand, .columns 3 4⟩]⟩) := by cbv
  cases calculatedIs.symm.trans calculated
  exact ⟨_, _, calculated, rfl, points⟩

end ConditionalAssembly
