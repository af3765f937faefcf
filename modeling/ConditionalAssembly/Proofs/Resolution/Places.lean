import ConditionalAssembly.Proofs.Expr.Parts
import ConditionalAssembly.Proofs.Resolution.Acceptance

/-!
# Where resolution reports

Resolution gives no part of an expression a range that reaches further than
those it found, and it reports faults at such ranges.  Only an operand that is
missing is reported on the column behind.
-/

namespace ConditionalAssembly

/-! ## Ranges up to a column -/

/-- The range stands on the first line and does not reach beyond a column. -/
def Range.UpTo (limit : Nat) (range : Range) : Prop :=
  ∃ start stop, range = .columns start stop ∧ start ≤ stop ∧ stop ≤ limit

/-- The diagnostic stands on the first line and does not reach beyond a column, or at most one
further when an operand is missing. -/
def Diagnostic.PointsUpTo (limit : Nat) (diagnostic : Diagnostic) : Prop :=
  ∃ start stop, diagnostic.range = .columns start stop ∧ start ≤ stop ∧ stop ≤ limit + 1 ∧
    (diagnostic.problem ≠ .missingOperand → stop ≤ limit)

namespace Range.UpTo

variable {limit : Nat} {range other : Range}

theorem union (upTo : range.UpTo limit) (upToToo : other.UpTo limit) :
    (range.union other).UpTo limit := by
  obtain ⟨start, stop, rfl, le, inside⟩ := upTo
  obtain ⟨begins, ends, rfl, leToo, insideToo⟩ := upToToo
  exact ⟨min start begins, max stop ends, union_columns .., by omega, by omega⟩

/-- A problem is reported at the range. -/
theorem pointsUpTo (upTo : range.UpTo limit) (problem : Problem) :
    Diagnostic.PointsUpTo limit ⟨problem, range⟩ := by
  obtain ⟨start, stop, rfl, le, inside⟩ := upTo
  exact ⟨start, stop, rfl, le, by omega, fun _ => inside⟩

/-- A missing operand is reported behind the range. -/
theorem pointsUpTo_pastEnd (upTo : range.UpTo limit) :
    Diagnostic.PointsUpTo limit ⟨.missingOperand, range.pastEnd⟩ := by
  obtain ⟨start, stop, rfl, le, inside⟩ := upTo
  exact ⟨stop, stop + 1, rfl, by omega, by omega, fun other => absurd rfl other⟩

end Range.UpTo

namespace Part

variable {limit : Nat}

/-- A part and everything inside it stand up to a column. -/
def StaysUpTo (limit : Nat) (part : Part) : Prop :=
  part.Throughout fun inner => inner.range.UpTo limit

theorem staysUpTo_iff {part : Part} :
    part.StaysUpTo limit ↔
      part.range.UpTo limit ∧ ∀ child ∈ part.children, child.StaysUpTo limit :=
  throughout_iff

theorem StaysUpTo.upTo {part : Part} (stays : part.StaysUpTo limit) : part.range.UpTo limit :=
  stays part .refl

theorem staysUpTo_of_children_eq_nil {part : Part} (upTo : part.range.UpTo limit)
    (children : part.children = []) : part.StaysUpTo limit := by
  rw [staysUpTo_iff, children]
  exact ⟨upTo, nofun⟩

end Part

/-- Some diagnostics and some parts stand up to a column. -/
structure Located (limit : Nat) (diagnostics : List Diagnostic) (parts : List Part) : Prop where
  diagnostics : ∀ diagnostic ∈ diagnostics, diagnostic.PointsUpTo limit
  parts : ∀ part ∈ parts, part.StaysUpTo limit

namespace Located

variable {limit : Nat} {diagnostics : List Diagnostic} {parts : List Part}

theorem nil : Located limit [] [] :=
  ⟨nofun, nofun⟩

theorem append {moreDiagnostics : List Diagnostic} {moreParts : List Part}
    (located : Located limit diagnostics parts)
    (locatedToo : Located limit moreDiagnostics moreParts) :
    Located limit (diagnostics ++ moreDiagnostics) (parts ++ moreParts) :=
  ⟨List.forall_mem_append.mpr ⟨located.diagnostics, locatedToo.diagnostics⟩,
    List.forall_mem_append.mpr ⟨located.parts, locatedToo.parts⟩⟩

/-- A step that reports nothing may follow. -/
theorem padded (located : Located limit diagnostics parts) :
    Located limit (diagnostics ++ []) parts := by
  rwa [List.append_nil]

theorem of_perm (located : Located limit diagnostics parts) {reordered : List Diagnostic}
    (same : reordered.Perm diagnostics) : Located limit reordered parts :=
  ⟨fun diagnostic found => located.diagnostics diagnostic (same.mem_iff.mp found), located.parts⟩

/-- A part that is made up of the parts. -/
theorem whole {part : Part} (located : Located limit diagnostics part.children)
    (upTo : part.range.UpTo limit) : Located limit diagnostics [part] :=
  ⟨located.diagnostics,
    List.forall_mem_singleton.mpr (Part.staysUpTo_iff.mpr ⟨upTo, located.parts⟩)⟩

end Located

/-! ## Lists -/

/-- An expression stands up to a column, and so does everything that resolving it reports or
gives. -/
structure Expr.Settles (limit : Nat) (expr : Expr) : Prop where
  upTo : expr.range.UpTo limit
  located : ∀ domain,
    Located limit (expr.resolve domain).diagnostics [.term (expr.resolve domain).value]

section Lists

variable {limit : Nat} {fragments : List Expr}

/-- What is reported about fragments that settle stands up to the column. -/
theorem pointsUpTo_reportedBy {resolutions : List (Expr × Domain)}
    (settle : ∀ fragment ∈ fragments, fragment.Settles limit)
    (own : (resolutions.map Prod.fst).Subperm fragments) :
    ∀ diagnostic ∈ reportedBy resolutions, diagnostic.PointsUpTo limit := by
  intro diagnostic found
  obtain ⟨resolution, isResolution, inside⟩ := List.mem_flatMap.mp found
  have isFragment := own.subset (List.mem_map_of_mem isResolution)
  exact ((settle _ isFragment).located _).diagnostics diagnostic inside

/-- The tree of a phrase of fragments that settle stands up to the column. -/
theorem Phrase.staysUpTo_tree {phrase : Phrase Expr}
    (settle : ∀ fragment ∈ phrase.items, fragment.Settles limit) (domain : Domain) :
    (Part.term (phrase.tree domain)).StaysUpTo limit := by
  induction phrase generalizing domain with
  | operand fragment =>
      have located := (settle fragment (List.mem_singleton_self _)).located domain
      exact located.parts _ (List.mem_singleton_self _)
  | unary entry word inner ih =>
      obtain ⟨wordSettles, others⟩ := List.forall_mem_cons.mp settle
      have operand := ih others (unaryDomain entry)
      exact Part.staysUpTo_iff.mpr
        ⟨wordSettles.upTo.union operand.upTo, List.forall_mem_singleton.mpr operand⟩
  | binary entry words left right ihLeft ihRight =>
      obtain ⟨front, inRight⟩ := List.forall_mem_append.mp settle
      have first := ihLeft (List.forall_mem_append.mp front).1 (binaryDomain entry left right)
      have second := ihRight inRight (binaryDomain entry left right)
      refine Part.staysUpTo_iff.mpr ⟨first.upTo.union second.upTo, ?_⟩
      exact List.forall_mem_cons.mpr ⟨first, List.forall_mem_singleton.mpr second⟩

/-- The fault of a list is reported at the list, or behind its last fragment. -/
theorem pointsUpTo_faultDiagnostic (settle : ∀ fragment ∈ fragments, fragment.Settles limit)
    {range : Range} (upTo : range.UpTo limit) (fault : Phrase.Fault) :
    (faultDiagnostic fragments range fault).PointsUpTo limit := by
  cases fault with
  | invalidOperator => exact upTo.pointsUpTo _
  | missingOperand =>
      rw [faultDiagnostic]
      cases last : fragments.getLast? with
      | none => exact upTo.pointsUpTo _
      | some fragment =>
          exact (settle fragment (List.mem_of_getLast? last)).upTo.pointsUpTo_pastEnd

/-- A list of fragments that settle does so, too. -/
theorem settles_unresolved (settle : ∀ fragment ∈ fragments, fragment.Settles limit)
    {range : Range} (upTo : range.UpTo limit) : (Expr.unresolved fragments range).Settles limit where
  upTo := upTo
  located domain := by
    rw [Expr.resolve]
    cases outcome : Phrase.ofItems (.ofDomain domain) Expr.word? fragments with
    | ok phrase =>
        have items := Phrase.items_of_ofItems outcome
        rw [resolveWith_of_phrase outcome]
        refine Located.whole ⟨?_, List.forall_mem_singleton.mpr ?_⟩ upTo
        · exact pointsUpTo_reportedBy settle (items ▸ phrase.subperm_items _)
        · exact Phrase.staysUpTo_tree (items ▸ settle) _
    | error failure =>
        have bounded := OperatorTable.bounded_ofDomain domain
        have completed := (Phrase.reads_of_ofItems_eq_error bounded outcome).completed_sublist
        have own := (Phrase.flatMap_built_subperm failure.completed).trans completed.subperm
        rw [resolveWith_of_failure outcome]
        refine Located.whole ⟨?_, List.forall_mem_singleton.mpr ?_⟩ upTo
        · refine List.forall_mem_append.mpr ⟨pointsUpTo_reportedBy settle own, ?_⟩
          exact List.forall_mem_singleton.mpr (pointsUpTo_faultDiagnostic settle upTo _)
        · exact Part.staysUpTo_of_children_eq_nil upTo rfl

end Lists

/-! ## Trees -/

section Trees

variable {limit : Nat}

/-- An expression that resolving does not change. -/
theorem Expr.Settles.unchanged {expr : Expr} (stays : (Part.term expr).StaysUpTo limit)
    (same : ∀ domain, expr.resolve domain = pure expr) : expr.Settles limit where
  upTo := stays.upTo
  located domain := by
    rw [same]
    exact ⟨nofun, List.forall_mem_singleton.mpr stays⟩

/-- A term that resolving only marks with a domain. -/
theorem Expr.Settles.marked {expr : Expr} (stays : (Part.term expr).StaysUpTo limit)
    (silent : ∀ domain, (expr.resolve domain).diagnostics = [])
    (range : ∀ domain, (expr.resolve domain).value.range = expr.range)
    (children : ∀ domain, (Part.term (expr.resolve domain).value).children =
      (Part.term expr).children) : expr.Settles limit where
  upTo := stays.upTo
  located domain := by
    have upTo : (Part.term (expr.resolve domain).value).range.UpTo limit := by
      rw [Part.range, range]
      exact stays.upTo
    refine Located.whole ⟨?_, ?_⟩ upTo
    · rw [silent]
      exact nofun
    · rw [children]
      exact (Part.staysUpTo_iff.mp stays).2

mutual

/-- Whatever resolving an expression reports or gives stands no further than the expression. -/
theorem Expr.settles : ∀ expr : Expr, (Part.term expr).StaysUpTo limit → expr.Settles limit
  | .constant _ _ _, stays | .symbol _ _ _, stays | .symbolAttribute _ _ _ _, stays
  | .variableAttribute _ _ _ _, stays =>
      .marked stays (fun _ => rfl) (fun _ => rfl) (fun _ => rfl)
  | .variableTerm reference none, stays => by
      obtain ⟨upTo, children⟩ := Part.staysUpTo_iff.mp stays
      have inner := reference.located_resolve (List.forall_mem_singleton.mp children)
      have resolved := (inner.parts _ (List.mem_singleton_self _)).upTo
      exact ⟨upTo, fun _ => inner.padded.whole resolved⟩
  | .string ⟨duplication, chain, ⟨start, count, toEnd⟩⟩ range none, stays => by
      obtain ⟨upTo, children⟩ := Part.staysUpTo_iff.mp stays
      obtain ⟨inText, inBounds⟩ := List.forall_mem_append.mp children
      obtain ⟨inFactor, inChain⟩ := List.forall_mem_append.mp inText
      obtain ⟨inStart, inCount⟩ := List.forall_mem_append.mp (List.forall_mem_map.mp inBounds)
      have text := (located_resolveNumber duplication (List.forall_mem_map.mp inFactor)).append
        (located_resolveChain chain (List.forall_mem_map.mp inChain))
      have bounds := (located_resolveNumber start inStart).append (located_resolveNumber count inCount)
      rw [← List.map_append] at bounds
      refine ⟨upTo, fun domain => ((text.append bounds).of_perm ?_).whole upTo⟩
      -- The chain is resolved before the duplication factor.
      simp only [Expr.resolve, Expr.resolveWith, Reported.diagnostics_bind,
        Reported.diagnostics_pure, List.append_nil]
      rw [List.append_assoc]
      exact List.perm_append_comm_assoc _ _ _
  | .unresolved fragments range, stays => by
      obtain ⟨upTo, children⟩ := Part.staysUpTo_iff.mp stays
      exact settles_unresolved (settles_each fragments (List.forall_mem_map.mp children)) upTo
  | .variableTerm _ (some _), stays | .string ⟨_, _, ⟨_, _, _⟩⟩ _ (some _), stays
  | .resolved _ _ _ _, stays | .unary _ _ _ _ _, stays | .binary _ _ _ _ _ _, stays =>
      .unchanged stays fun _ => rfl

theorem VariableSymbol.located_resolve :
    ∀ reference : VariableSymbol, (Part.reference reference).StaysUpTo limit →
      Located limit reference.resolve.diagnostics [.reference reference.resolve.value]
  | ⟨.basic name, subscript, range⟩, stays => by
      obtain ⟨upTo, children⟩ := Part.staysUpTo_iff.mp stays
      have numbers := located_resolveNumbers subscript (List.forall_mem_map.mp children)
      exact numbers.padded.whole upTo
  | ⟨.created chain, subscript, range⟩, stays => by
      obtain ⟨upTo, children⟩ := Part.staysUpTo_iff.mp stays
      obtain ⟨inName, inSubscript⟩ := List.forall_mem_append.mp children
      have name := located_resolveChain chain (List.forall_mem_map.mp inName)
      have numbers := located_resolveNumbers subscript (List.forall_mem_map.mp inSubscript)
      exact (name.append numbers.padded).whole upTo

theorem ChainItem.located_resolve :
    ∀ item : ChainItem, (∀ symbol ∈ item.references, (Part.reference symbol).StaysUpTo limit) →
      Located limit item.resolve.diagnostics (item.resolve.value.references.map .reference)
  | .text _, _ | .dot, _ | .equals, _ => .nil
  | .variableItem reference, stays =>
      (reference.located_resolve (stays reference (List.mem_singleton_self _))).padded
  | .sublist members, stays => (located_resolveMembers members stays).padded

theorem located_resolveChain :
    ∀ chain : List ChainItem,
      (∀ symbol ∈ referencesOfChain chain, (Part.reference symbol).StaysUpTo limit) →
      Located limit (resolveChain chain).diagnostics
        ((referencesOfChain (resolveChain chain).value).map .reference)
  | [], _ => .nil
  | item :: rest, stays => by
      obtain ⟨first, others⟩ := List.forall_mem_append.mp stays
      have further := item.located_resolve first |>.append (located_resolveChain rest others).padded
      rw [← List.map_append] at further
      exact further

theorem located_resolveMembers :
    ∀ members : List (List ChainItem),
      (∀ symbol ∈ referencesOfMembers members, (Part.reference symbol).StaysUpTo limit) →
      Located limit (resolveMembers members).diagnostics
        ((referencesOfMembers (resolveMembers members).value).map .reference)
  | [], _ => .nil
  | chain :: rest, stays => by
      obtain ⟨first, others⟩ := List.forall_mem_append.mp stays
      have further :=
        (located_resolveChain chain first).append (located_resolveMembers rest others).padded
      rw [← List.map_append] at further
      exact further

theorem located_resolveNumbers :
    ∀ exprs : List Expr, (∀ expr ∈ exprs, (Part.term expr).StaysUpTo limit) →
      Located limit (resolveNumbers exprs).diagnostics ((resolveNumbers exprs).value.map .term)
  | [], _ => .nil
  | expr :: rest, stays => by
      obtain ⟨first, others⟩ := List.forall_mem_cons.mp stays
      have own := (expr.settles first).located .arithmetic
      exact own.append (located_resolveNumbers rest others).padded

theorem located_resolveNumber :
    ∀ expr : Option Expr, (∀ inner ∈ expr.toList, (Part.term inner).StaysUpTo limit) →
      Located limit (resolveNumber expr).diagnostics ((resolveNumber expr).value.toList.map .term)
  | none, _ => .nil
  | some expr, stays =>
      ((expr.settles (stays expr (List.mem_singleton_self _))).located .arithmetic).padded

theorem settles_each :
    ∀ fragments : List Expr, (∀ fragment ∈ fragments, (Part.term fragment).StaysUpTo limit) →
      ∀ fragment ∈ fragments, fragment.Settles limit
  | [], _ => List.forall_mem_nil _
  | fragment :: rest, stays => by
      obtain ⟨first, others⟩ := List.forall_mem_cons.mp stays
      exact List.forall_mem_cons.mpr ⟨fragment.settles first, settles_each rest others⟩

end

end Trees

end ConditionalAssembly
