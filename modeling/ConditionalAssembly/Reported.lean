import ConditionalAssembly.Diagnostic

/-!
# Results with diagnostics

Resolution and evaluation never fail: they give a result together with the
diagnostics found on the way, in the order in which they were found.  Steps
are chained by appending what the later step found.
-/

namespace ConditionalAssembly

/-- A result and the diagnostics found while it was computed. -/
@[ext]
structure Reported (α : Type) where
  value : α
  diagnostics : List Diagnostic

namespace Reported

/-- Chaining appends the diagnostics of the later step. -/
instance : Monad Reported where
  pure value := ⟨value, []⟩
  bind first next :=
    let second := next first.value
    ⟨second.value, first.diagnostics ++ second.diagnostics⟩

@[simp]
theorem value_pure {α : Type} (value : α) : (pure value : Reported α).value = value :=
  rfl

@[simp]
theorem diagnostics_pure {α : Type} (value : α) : (pure value : Reported α).diagnostics = [] :=
  rfl

@[simp]
theorem value_bind {α β : Type} (first : Reported α) (next : α → Reported β) :
    (first >>= next).value = (next first.value).value :=
  rfl

@[simp]
theorem diagnostics_bind {α β : Type} (first : Reported α) (next : α → Reported β) :
    (first >>= next).diagnostics = first.diagnostics ++ (next first.value).diagnostics :=
  rfl

@[simp]
theorem value_map {α β : Type} (f : α → β) (first : Reported α) :
    (f <$> first).value = f first.value :=
  rfl

@[simp]
theorem diagnostics_map {α β : Type} (f : α → β) (first : Reported α) :
    (f <$> first).diagnostics = first.diagnostics :=
  List.append_nil _

/-- Chaining is associative and has the results without diagnostics as units. -/
instance : LawfulMonad Reported := LawfulMonad.mk' Reported
  (fun _ => Reported.ext rfl (List.append_nil _))
  (fun _ _ => Reported.ext rfl (List.nil_append _))
  (fun _ _ _ => Reported.ext rfl (List.append_assoc _ _ _))

/-- A result about which one problem is reported. -/
def report {α : Type} (problem : Problem) (range : Range) (value : α) : Reported α :=
  ⟨value, [⟨problem, range⟩]⟩

@[simp]
theorem value_report {α : Type} (problem : Problem) (range : Range) (value : α) :
    (report problem range value).value = value :=
  rfl

@[simp]
theorem diagnostics_report {α : Type} (problem : Problem) (range : Range) (value : α) :
    (report problem range value).diagnostics = [⟨problem, range⟩] :=
  rfl

end Reported

end ConditionalAssembly
