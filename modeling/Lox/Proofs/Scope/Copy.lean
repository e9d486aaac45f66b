import Lox.Proofs.Scope.Twin
import Lox.Proofs.Syntax.Moved

/-!
# Copies are resolved alike

The uses in a copy of a program have the distances of those in the program. So have the uses in the
copies of two programs that follow each other: at the top level the one does not see the other.
-/

namespace Lox

open Scope (Distances Place ScopeFault)

/-! ## Identities side by side -/

/-- The identities stand at one position of two lists. -/
def Beside (ids ids' : List NodeId) (id id' : NodeId) : Prop :=
  ∃ i : Nat, ids[i]? = some id ∧ ids'[i]? = some id'

namespace Beside

variable {ids ids' : List NodeId} {a a' b b' : NodeId}

theorem forall₂ (h : ids'.length = ids.length) : List.Forall₂ (Beside ids ids') ids ids' := by
  refine List.forall₂_iff_get.mpr ⟨h.symm, fun i hi hi' => ⟨i, ?_, ?_⟩⟩
  · exact List.getElem?_eq_getElem hi
  · exact List.getElem?_eq_getElem hi'

theorem mem_left (h : Beside ids ids' a a') : a ∈ ids :=
  let ⟨_, h, _⟩ := h
  List.mem_of_getElem? h

theorem mem_right (h : Beside ids ids' a a') : a' ∈ ids' :=
  let ⟨_, _, h⟩ := h
  List.mem_of_getElem? h

/-- A position is known by the identity there. -/
theorem position (hnodup : ids.Nodup) {i j : Nat} (hi : ids[i]? = some a) (hj : ids[j]? = some a) :
    i = j :=
  (List.getElem?_inj (List.getElem?_eq_some_iff.mp hi).1 hnodup).mp (hi.trans hj.symm)

theorem eq_right (h : Beside ids ids' a a') (hnodup : ids.Nodup) (h' : Beside ids ids' a b') :
    a' = b' := by
  obtain ⟨i, hi, hi'⟩ := h
  obtain ⟨j, hj, hj'⟩ := h'
  obtain rfl := position hnodup hi hj
  exact Option.some.inj (hi'.symm.trans hj')

theorem eq_left (h : Beside ids ids' a a') (hnodup : ids'.Nodup) (h' : Beside ids ids' b a') :
    a = b := by
  obtain ⟨i, hi, hi'⟩ := h
  obtain ⟨j, hj, hj'⟩ := h'
  obtain rfl := position hnodup hi' hj'
  exact Option.some.inj (hi.symm.trans hj)

end Beside

/-- Every member of the second of two related lists is related to one of the first. -/
theorem exists_of_forall₂_right {α β : Type} {r : α → β → Prop} {xs : List α} {ys : List β} {y : β}
    (h : List.Forall₂ r xs ys) (hy : y ∈ ys) : ∃ x ∈ xs, r x y := by
  induction h with
  | nil => cases hy
  | cons hfirst _ ih =>
      cases hy with
      | head => exact ⟨_, List.mem_cons_self, hfirst⟩
      | tail _ hy =>
          obtain ⟨x, hx, hr⟩ := ih hy
          exact ⟨x, List.mem_cons_of_mem _ hx, hr⟩

/-! ## One copy -/

section

variable {program program' : List Stmt} {distances distances' : Distances} {f : Token → Token}

/-- The pairing of a program and a copy of it. -/
abbrev Pairing.ofCopy (program program' : List Stmt) (distances : Distances) (f : Token → Token) :
    Pairing :=
  .copy (Beside (Stmt.nodesAll program) (Stmt.nodesAll program')) (fun id => distances[id]?) f

theorem twin_ofCopy (hf : Faithful f)
    (h : Stmt.eraseAll program' = Stmt.mapTokensAll f (Stmt.eraseAll program)) :
    Stmt.TwinAll (.ofCopy program program' distances f) [] program program' := by
  have hcopied : Copied (fun id => distances[id]?) f _ _ fun pairing scopes =>
    Stmt.TwinAll pairing scopes program program' := Stmt.copiedAll hf program program' h
  exact hcopied.twin _ (Beside.forall₂ hcopied.length) [] (by simp [Unchanged])

theorem nodup_useNodes (h : (Stmt.nodesAll program).Nodup) :
    (useNodes (programSites program)).Nodup := by
  obtain ⟨nodes, hperm, hsublist⟩ := useNodes_programSites_subperm program
  exact hperm.nodup_iff.mp (h.sublist hsublist)

theorem suits_ofCopy (hresolve : (Scope.resolve program).1 = distances)
    (hnodup : (Stmt.nodesAll program).Nodup) :
    (Pairing.ofCopy program program' distances f).Suits (programSites program) := by
  refine ⟨⟨rfl, True.intro, True.intro, ?_⟩, ?_⟩
  · rintro r r' rfl rfl a b - - heq
    exact heq
  · rintro place u hmem id' distance ⟨-, rfl⟩
    exact Scope.matched_of_resolve hresolve (nodup_useNodes hnodup) hmem

/-- The place after statements at the top level has no scopes around it either. -/
theorem twin_afterAll (pairing : Pairing) (above : List Stmt) :
    Place.top.Twin pairing [] (Place.top.afterAll above) := by
  have hplace : ∀ path, ∃ path',
      Place.afterAll { Place.top with path := path } above = { Place.top with path := path' } := by
    induction above with
    | nil => exact fun path => ⟨path, rfl⟩
    | cons s rest ih => exact fun path => ih (path.modifyHead (· + 1))
  obtain ⟨path, hpath⟩ := hplace [0]
  change Place.top.Twin pairing [] (Place.afterAll { Place.top with path := [0] } above)
  rw [hpath]
  exact (Place.Twin.top pairing).moved [0] path

/-- The sites of a copy, after whatever statements, are twins of those of the program. -/
theorem sites_ofCopy (hresolve : (Scope.resolve program).1 = distances)
    (hnodup : (Stmt.nodesAll program).Nodup)
    (htwin : Stmt.TwinAll (.ofCopy program program' distances f) [] program program')
    (above : List Stmt) :
    List.Forall₂ (Occurrence.Twin (.ofCopy program program' distances f)) (programSites program)
      (Stmt.sitesAll (Place.top.afterAll above) program') :=
  htwin.sitesAll (suits_ofCopy hresolve hnodup) (twin_afterAll _ above) rfl (List.Subset.refl _)

/-- Expressions that go together have one distance or none, if the uses in the copy have their
distances and its other expressions none. -/
theorem distance_ofCopy {sites' : List Occurrence} (hresolve : (Scope.resolve program).1 = distances)
    (hnodup : (Stmt.nodesAll program).Nodup) (hnodup' : (Stmt.nodesAll program').Nodup)
    (hsites : List.Forall₂ (Occurrence.Twin (.ofCopy program program' distances f))
      (programSites program) sites')
    (hmatched : ∀ place u, ⟨place, .use u⟩ ∈ sites' → distances'[u.node]? = place.matched? u)
    (hother : ∀ id ∈ Stmt.nodesAll program', id ∉ useNodes sites' → distances'[id]? = none)
    {id id' : NodeId} (h : Beside (Stmt.nodesAll program) (Stmt.nodesAll program') id id') :
    distances'[id']? = distances[id]? := by
  by_cases hmem : id ∈ useNodes (programSites program)
  · obtain ⟨place, u, huse, rfl⟩ := exists_use_of_mem_useNodes hmem
    obtain ⟨place', u', huse', ⟨hbeside, -⟩, hsame⟩ := exists_use_of_twins hsites huse
    rw [h.eq_right hnodup hbeside, hmatched place' u' huse', hsame,
      Scope.matched_of_resolve hresolve (nodup_useNodes hnodup) huse]
  · rw [Scope.untouched_of_resolve hresolve hmem]
    refine hother id' h.mem_right fun hmem' => hmem ?_
    obtain ⟨first, hfirst, distance, hbeside, -⟩ :=
      exists_of_forall₂_right (useNodes_twins hsites) hmem'
    rwa [h.eq_left hnodup' hbeside]

end

/-! ## Copies of two programs that follow each other -/

theorem Stmt.sitesAll_append (place : Place) (xs ys : List Stmt) :
    Stmt.sitesAll place (xs ++ ys) =
      Stmt.sitesAll place xs ++ Stmt.sitesAll (place.afterAll xs) ys := by
  induction xs generalizing place with
  | nil => rfl
  | cons s rest ih =>
      rw [List.cons_append, Stmt.sitesAll, Stmt.sitesAll, ih, List.append_assoc]
      rfl

theorem mem_nodesAll_of_use {place : Place} {program : List Stmt} {id : NodeId}
    (h : id ∈ useNodes (Stmt.sitesAll place program)) : id ∈ Stmt.nodesAll program := by
  rw [Stmt.useNodes_sitesAll] at h
  exact (Stmt.usesAll_owned program).subset h

/-- The copies of two programs without static errors have none when the one follows the other, and
their uses have the distances of those in the programs. -/
theorem resolve_copies {above below above' below' : List Stmt}
    {distances further : Distances} {f g : Token → Token} (hf : Faithful f) (hg : Faithful g)
    (habove : Scope.resolve above = (distances, [])) (hbelow : Scope.resolve below = (further, []))
    (hnodup : (Stmt.nodesAll above).Nodup) (hnodup' : (Stmt.nodesAll below).Nodup)
    (hfresh : (Stmt.nodesAll (above' ++ below')).Nodup)
    (hcopy : Stmt.eraseAll above' = Stmt.mapTokensAll f (Stmt.eraseAll above))
    (hcopy' : Stmt.eraseAll below' = Stmt.mapTokensAll g (Stmt.eraseAll below)) :
    ∃ whole, Scope.resolve (above' ++ below') = (whole, []) ∧
      (∀ id id', Beside (Stmt.nodesAll above) (Stmt.nodesAll above') id id' →
        whole[id']? = distances[id]?) ∧
      ∀ id id', Beside (Stmt.nodesAll below) (Stmt.nodesAll below') id id' →
        whole[id']? = further[id]? := by
  have hfirst : (Scope.resolve above).1 = distances := congrArg Prod.fst habove
  have hsecond : (Scope.resolve below).1 = further := congrArg Prod.fst hbelow
  have hsites := sites_ofCopy hfirst hnodup (twin_ofCopy hf hcopy) []
  have hsites' := sites_ofCopy hsecond hnodup' (twin_ofCopy hg hcopy') above'
  have hboth : programSites (above' ++ below') = Stmt.sitesAll .top above' ++
      Stmt.sitesAll (Place.top.afterAll above') below' := Stmt.sitesAll_append _ above' below'
  obtain ⟨whole, hresolve⟩ := (Scope.lawful_iff_resolve (above' ++ below')).mp <| by
    rw [hboth]
    intro occurrence hmem
    rcases List.mem_append.mp hmem with hmem | hmem
    · exact lawful_of_twins hsites
        ((Scope.lawful_iff_resolve above).mpr ⟨distances, habove⟩) occurrence hmem
    · exact lawful_of_twins hsites'
        ((Scope.lawful_iff_resolve below).mpr ⟨further, hbelow⟩) occurrence hmem
  have hwhole : (Scope.resolve (above' ++ below')).1 = whole := congrArg Prod.fst hresolve
  have hmatched : ∀ place u, ⟨place, .use u⟩ ∈ programSites (above' ++ below') →
      whole[u.node]? = place.matched? u := fun place u hmem =>
    Scope.matched_of_resolve hwhole (nodup_useNodes hfresh) hmem
  have hnodes := hfresh
  rw [Stmt.nodesAll_append] at hnodes
  obtain ⟨hnodes, hnodes', hdisjoint⟩ := List.nodup_append.mp hnodes
  -- an expression of one copy is no use in the other one
  have hother : ∀ id, id ∉ useNodes (Stmt.sitesAll .top above') →
      id ∉ useNodes (Stmt.sitesAll (Place.top.afterAll above') below') → whole[id]? = none := by
    intro id hid hid'
    refine Scope.untouched_of_resolve hwhole ?_
    rw [hboth, Scope.useNodes_append, List.mem_append]
    exact not_or.mpr ⟨hid, hid'⟩
  refine ⟨whole, hresolve, fun id id' hbeside => ?_, fun id id' hbeside => ?_⟩
  · refine distance_ofCopy hfirst hnodup hnodes hsites (fun place u hmem => hmatched place u ?_)
      (fun id hid hunused => hother id hunused fun huse => ?_) hbeside
    · rw [hboth]
      exact List.mem_append_left _ hmem
    · exact hdisjoint id hid id (mem_nodesAll_of_use huse) rfl
  · refine distance_ofCopy hsecond hnodup' hnodes' hsites' (fun place u hmem => hmatched place u ?_)
      (fun id hid hunused => hother id (fun huse => ?_) hunused) hbeside
    · rw [hboth]
      exact List.mem_append_right _ hmem
    · exact hdisjoint id (mem_nodesAll_of_use huse) id hid rfl

end Lox
