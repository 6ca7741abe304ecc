import Mathlib.Data.Finset.Card
import Mathlib.Data.List.Induction
import ResourceTables.Proofs.Claims

/-!
# Claims in turn

Keys claim identifiers of one scope, one after the other, and a claim that is refused leaves the
scope as it was. Whatever was refused in between, the scope knows of each identifier the key that
was the first to claim it, and holds no identifier twice. This is kept by each claim, and what
becomes of the next claim is read off it.

## Main definitions

* `Registry.afterClaims`: the scope after claims that were made in turn.
* `Registry.Records`: a scope knows who was the first to claim an identifier.

## Main results

* `Registry.Records.afterClaim`, `Registry.records_afterClaims`: one claim, and claims in turn.
* `Registry.claim_afterClaims`: what becomes of a claim, by the claims before it.
-/

namespace ResourceTables

namespace Registry

variable {scope next : Registry} {claims : List (String × String)} {identifier key : String}
  {clash : Clash}

/-- The scope after a claim; one that is refused leaves the scope as it was. -/
def afterClaim (scope : Registry) (claim : String × String) : Registry :=
  match scope.claim claim.1 claim.2 with
  | .ok next => next
  | .error _ => scope

/-- The scope, empty at first, after claims that were made in turn, be they refused or not. -/
def afterClaims (claims : List (String × String)) : Registry :=
  claims.foldl afterClaim .empty

theorem afterClaims_concat (claims : List (String × String)) (claim : String × String) :
    afterClaims (claims ++ [claim]) = (afterClaims claims).afterClaim claim :=
  List.foldl_concat ..

/-! ## One claim -/

/-- A claim is refused if the identifier has an owner, which is told. -/
theorem claim_eq_error_iff : scope.claim identifier key = .error clash ↔
    ∃ first, scope.owner? identifier = some first ∧ clash = ⟨identifier, first, key⟩ := by
  rw [Registry.claim]
  cases scope.owner? identifier <;> simp [eq_comm]

theorem afterClaim_of_ok (h : scope.claim identifier key = .ok next) :
    scope.afterClaim (identifier, key) = next := by
  rw [afterClaim, h]

theorem afterClaim_of_error (h : scope.claim identifier key = .error clash) :
    scope.afterClaim (identifier, key) = scope := by
  rw [afterClaim, h]

/-! ## Claims in turn -/

/-- A scope records claims: it holds no identifier twice, and knows of each the key that was the
first to claim it. -/
structure Records (scope : Registry) (claims : List (String × String)) : Prop where
  nodup : scope.identifiers.Nodup
  owner?_eq : ∀ identifier, scope.owner? identifier = claims.lookup identifier

/-- One more claim is recorded, be it refused or not. -/
theorem Records.afterClaim (h : scope.Records claims) (identifier key : String) :
    (scope.afterClaim (identifier, key)).Records (claims ++ [(identifier, key)]) := by
  cases hClaim : scope.claim identifier key with
  | ok next =>
    rw [afterClaim_of_ok hClaim]
    obtain ⟨hFree, rfl⟩ := claim_eq_ok_iff.mp hClaim
    refine ⟨?_, fun other => ?_⟩
    · have hAll : identifiers ⟨scope.owners ++ [(identifier, key)]⟩ =
          scope.identifiers.concat identifier := by
        rw [identifiers, List.map_append, List.concat_eq_append]
        rfl
      rw [hAll]
      exact h.nodup.concat hFree
    · rw [List.lookup_append, ← h.owner?_eq]
      exact List.lookup_append
  | error clash =>
    rw [afterClaim_of_error hClaim]
    obtain ⟨first, hOwner, -⟩ := claim_eq_error_iff.mp hClaim
    refine ⟨h.nodup, fun other => ?_⟩
    rw [List.lookup_append, ← h.owner?_eq]
    -- The claim that is refused comes behind the one it is refused for.
    by_cases hSame : other = identifier
    · rw [hSame, hOwner]
      rfl
    · have hNone : [(identifier, key)].lookup other = none := by
        rw [List.lookup_cons, beq_eq_false_iff_ne.mpr hSame]
        rfl
      rw [hNone, Option.or_none]

theorem records_afterClaims (claims : List (String × String)) :
    (afterClaims claims).Records claims := by
  induction claims using List.reverseRecOn with
  | nil => exact ⟨List.nodup_nil, fun _ => rfl⟩
  | append_singleton claims claim ih =>
    rw [afterClaims_concat]
    exact ih.afterClaim claim.1 claim.2

namespace Records

/-- The identifiers of a scope are those that were claimed. -/
theorem mem_identifiers (h : scope.Records claims) :
    identifier ∈ scope.identifiers ↔ identifier ∈ claims.map (·.1) := by
  rw [identifiers, ← exists_lookup_iff, ← exists_lookup_iff, ← h.owner?_eq, owner?]

/-- The size of a scope is the number of identifiers that were claimed. -/
theorem size_eq (h : scope.Records claims) :
    scope.size = (claims.map (·.1)).toFinset.card := by
  have hSame : scope.identifiers.toFinset = (claims.map (·.1)).toFinset := by
    ext identifier
    rw [List.mem_toFinset, List.mem_toFinset, h.mem_identifiers]
  rw [← hSame, List.toFinset_card_of_nodup h.nodup, identifiers, List.length_map, size]

theorem isEmpty_iff (h : scope.Records claims) : scope.isEmpty = true ↔ claims = [] := by
  have hSize : scope.isEmpty = true ↔ scope.size = 0 := by
    rw [isEmpty, List.isEmpty_iff, size, List.length_eq_zero_iff]
  rw [hSize, h.size_eq, Finset.card_eq_zero, List.toFinset_eq_empty_iff, List.map_eq_nil_iff]

end Records

/-- Of claims in turn one succeeds exactly if none before it was of the same identifier. One that is
refused changes nothing, and tells its own key and that of the first claim of the identifier. The
scope has as many identifiers as were claimed, and none only if there were no claims. -/
theorem claim_afterClaims (earlier : List (String × String)) (identifier key : String) :
    ((∃ next, (afterClaims earlier).claim identifier key = .ok next) ↔
        identifier ∉ earlier.map (·.1)) ∧
      (∀ clash, (afterClaims earlier).claim identifier key = .error clash →
        afterClaims (earlier ++ [(identifier, key)]) = afterClaims earlier ∧
        clash.identifier = identifier ∧ clash.second = key ∧
        ∃ before between, earlier = before ++ (identifier, clash.first) :: between ∧
          identifier ∉ before.map (·.1)) ∧
      (afterClaims earlier).size = (earlier.map (·.1)).toFinset.card ∧
      ((afterClaims earlier).isEmpty = true ↔ earlier = []) := by
  have hRecords := records_afterClaims earlier
  refine ⟨?_, fun clash hClash => ?_, hRecords.size_eq, hRecords.isEmpty_iff⟩
  · simp only [claim_eq_ok_iff, hRecords.mem_identifiers, exists_and_left, exists_eq, and_true]
  · obtain ⟨first, hOwner, rfl⟩ := claim_eq_error_iff.mp hClash
    rw [hRecords.owner?_eq] at hOwner
    obtain ⟨before, between, hEarlier, hBefore⟩ := List.lookup_eq_some_iff.mp hOwner
    refine ⟨?_, rfl, rfl, before, between, hEarlier, ?_⟩
    · rw [afterClaims_concat]
      exact afterClaim_of_error hClash
    · intro hMem
      obtain ⟨other, hOther, hSame⟩ := List.mem_map.mp hMem
      exact absurd hSame.symm (by simpa using hBefore other hOther)

/-- Claims of two identifiers; one of them is claimed again by another key, and by its own. -/
def nameClaims : List (String × String) :=
  [("FULL_NAME", "full-name"), ("FULL_NAME", "full_name"), ("SIZE", "size"),
   ("FULL_NAME", "full-name")]

/-- The key that was the first to claim the identifier is told, and not one that was refused. -/
theorem claim_afterClaims_nameClaims :
    ∃ clash, (afterClaims nameClaims).claim "FULL_NAME" "Full-Name" = .error clash ∧
      clash.first = "full-name" ∧
      afterClaims (nameClaims ++ [("FULL_NAME", "Full-Name")]) = afterClaims nameClaims ∧
      (afterClaims nameClaims).size = 2 := by
  obtain ⟨hFree, hRefused, hSize, -⟩ := claim_afterClaims nameClaims "FULL_NAME" "Full-Name"
  cases hClaim : (afterClaims nameClaims).claim "FULL_NAME" "Full-Name" with
  | ok next => exact absurd (hFree.mp ⟨next, hClaim⟩) (by decide)
  | error clash =>
    obtain ⟨hSame, -, -, before, between, hSplit, hBefore⟩ := hRefused clash hClaim
    refine ⟨clash, rfl, ?_, hSame, hSize.trans (by decide)⟩
    cases before with
    | nil => exact (Prod.mk.inj (List.cons.inj hSplit).1).2.symm
    | cons earliest before =>
      obtain ⟨rfl, -⟩ := List.cons.inj hSplit
      exact absurd List.mem_cons_self hBefore

end Registry

end ResourceTables
