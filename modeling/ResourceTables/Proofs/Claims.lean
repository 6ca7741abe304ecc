import ResourceTables.GeneratedModule
import ResourceTables.Proofs.Checked
import ResourceTables.Proofs.Entries

/-!
# Claims of names

When the names that are claimed in a scope, one after the other, all get their place. A scope that
starts empty takes a list of names exactly if no name comes twice; the scopes of a generated module
also ask that each name can be spelled.

## Main definitions

* `Registry.identifiers`: the identifiers that are taken.
* `Claimable`: names that an empty scope of a generated module takes.
-/

namespace ResourceTables

/-- The identifiers of a scope, in the order they were claimed. -/
def Registry.identifiers (scope : Registry) : List String :=
  scope.owners.map (·.1)

/-- Names that an empty scope of a generated module takes: each can be spelled, and none comes
twice. -/
def Claimable (names : List String) : Prop :=
  (∀ name ∈ names, isIdentifier name) ∧ names.Nodup

/-- A claim succeeds if the identifier is free, and adds it at the end. -/
theorem claim_eq_ok_iff {scope result : Registry} {identifier key : String} :
    scope.claim identifier key = .ok result ↔
      identifier ∉ scope.identifiers ∧ result = ⟨scope.owners ++ [(identifier, key)]⟩ := by
  rw [Registry.claim, Registry.identifiers, ← exists_lookup_iff, Registry.owner?]
  cases scope.owners.lookup identifier <;> simp [eq_comm]

/-- Claims succeed one after the other if their identifiers are free and differ from each other. -/
theorem claimAll_eq_ok_iff {scope result : Registry} {claims : List (String × String)} :
    claimAll scope claims = .ok result ↔
      (claims.map (·.1)).Nodup ∧ (∀ claim ∈ claims, claim.1 ∉ scope.identifiers) ∧
        result = ⟨scope.owners ++ claims⟩ := by
  induction claims generalizing scope with
  | nil => simp [claimAll, eq_comm]
  | cons claim rest ih =>
    have hCons : claimAll scope (claim :: rest) = .ok result ↔
        ∃ next, scope.claim claim.1 claim.2 = .ok next ∧ claimAll next rest = .ok result := by
      rw [claimAll]
      cases scope.claim claim.1 claim.2 <;> simp
    simp only [hCons, claim_eq_ok_iff, ih]
    -- The scope of the rest holds one more identifier, so freshness splits into two conditions.
    constructor
    · rintro ⟨next, ⟨hFree, rfl⟩, hNodup, hRest, rfl⟩
      simp only [Registry.identifiers, List.map_append, List.map_cons, List.map_nil,
        List.mem_append, List.mem_singleton, not_or] at hRest
      refine ⟨?_, ?_, by simp⟩
      · rw [List.map_cons, List.nodup_cons]
        refine ⟨fun hMem => ?_, hNodup⟩
        obtain ⟨other, hOther, hEq⟩ := List.mem_map.mp hMem
        exact (hRest other hOther).2 hEq
      · exact List.forall_mem_cons.mpr ⟨hFree, fun other hOther => (hRest other hOther).1⟩
    · rintro ⟨hNodup, hFree, rfl⟩
      rw [List.map_cons, List.nodup_cons] at hNodup
      obtain ⟨hClaim, hRest⟩ := List.forall_mem_cons.mp hFree
      refine ⟨_, ⟨hClaim, rfl⟩, hNodup.2, fun other hOther => ?_, by simp⟩
      simp only [Registry.identifiers, List.map_append, List.map_cons, List.map_nil,
        List.mem_append, List.mem_singleton, not_or]
      refine ⟨hRest other hOther, fun hEq => hNodup.1 ?_⟩
      exact List.mem_map.mpr ⟨other, hOther, hEq⟩

theorem claimAll_empty_isOk_iff {claims : List (String × String)} :
    (∃ scope, claimAll .empty claims = .ok scope) ↔ (claims.map (·.1)).Nodup := by
  simp [claimAll_eq_ok_iff, Registry.identifiers, Registry.empty]

theorem claimAll_eq_foldlM (scope : Registry) (claims : List (String × String)) :
    claimAll scope claims =
      claims.foldlM (fun scope claim =>
        (scope.claim claim.1 claim.2).mapError Fault.duplicateIdentifier) scope := by
  induction claims generalizing scope with
  | nil => rfl
  | cons claim rest ih =>
    rw [claimAll, List.foldlM_cons]
    cases scope.claim claim.1 claim.2 with
    | error clash => rfl
    | ok next => exact ih next

/-- A claim is refused if the identifier has an owner. -/
theorem mapError_claim_eq_error_iff {scope : Registry} {identifier key : String} {fault : Fault} :
    (scope.claim identifier key).mapError Fault.duplicateIdentifier = .error fault ↔
      ∃ first, scope.owner? identifier = some first ∧
        fault = .duplicateIdentifier ⟨identifier, first, key⟩ := by
  rw [Registry.claim]
  cases scope.owner? identifier <;> simp [Except.mapError, eq_comm]

/-- Claims are refused at the first whose identifier has an owner among the claims before it. -/
theorem claimAll_eq_error_iff {scope : Registry} {claims : List (String × String)} {fault : Fault} :
    claimAll scope claims = .error fault ↔
      ∃ before claim after first, claims = before ++ claim :: after ∧
        (∃ next, claimAll scope before = .ok next ∧ next.owner? claim.1 = some first) ∧
        fault = .duplicateIdentifier ⟨claim.1, first, claim.2⟩ := by
  rw [claimAll_eq_foldlM, Checked.foldlM_eq_error_iff]
  simp only [← claimAll_eq_foldlM, mapError_claim_eq_error_iff]
  constructor
  · rintro ⟨before, claim, after, hClaims, next, hNext, first, hOwner, hFault⟩
    exact ⟨before, claim, after, first, hClaims, ⟨next, hNext, hOwner⟩, hFault⟩
  · rintro ⟨before, claim, after, first, hClaims, ⟨next, hNext, hOwner⟩, hFault⟩
    exact ⟨before, claim, after, hClaims, next, hNext, first, hOwner, hFault⟩

/-- An empty scope refuses claims at the first whose identifier is that of an earlier claim, which
the fault names: before it, no identifier comes twice. -/
theorem claimAll_empty_eq_error_iff {claims : List (String × String)} {fault : Fault} :
    claimAll .empty claims = .error fault ↔
      ∃ before first between second after,
        claims = (before ++ first :: between) ++ second :: after ∧
        ((before ++ first :: between).map (·.1)).Nodup ∧ first.1 = second.1 ∧
        fault = .duplicateIdentifier ⟨second.1, first.2, second.2⟩ := by
  simp only [claimAll_eq_error_iff, claimAll_eq_ok_iff, Registry.identifiers, Registry.empty,
    Registry.owner?, List.map_nil, List.not_mem_nil, not_false_eq_true, implies_true, true_and,
    List.nil_append]
  constructor
  · rintro ⟨earlier, second, after, owner, rfl, ⟨next, ⟨hNodup, rfl⟩, hOwner⟩, rfl⟩
    obtain ⟨before, between, rfl, -⟩ := List.lookup_eq_some_iff.mp hOwner
    exact ⟨before, (second.1, owner), between, second, after, rfl, hNodup, rfl, rfl⟩
  · rintro ⟨before, first, between, second, after, rfl, hNodup, hSame, rfl⟩
    refine ⟨before ++ first :: between, second, after, first.2, rfl, ⟨_, ⟨hNodup, rfl⟩, ?_⟩, rfl⟩
    rw [lookup_eq_some_iff_mem hNodup, ← hSame]
    simp

theorem claimName_eq_ok_iff {file : Path} {scope result : Registry} {identifier key : String} :
    claimName file scope identifier key = .ok result ↔
      isIdentifier identifier ∧ scope.claim identifier key = .ok result := by
  rw [claimName]
  cases hIdentifier : isIdentifier identifier <;> cases scope.claim identifier key <;> simp

/-- A name is refused if it cannot be spelled, or if a key has it already. -/
theorem claimName_eq_error_iff {file : Path} {scope : Registry} {identifier key : String}
    {fault : Fault} :
    claimName file scope identifier key = .error fault ↔
      (isIdentifier identifier = false ∧
        fault = .definition file (.notIdentifier key identifier)) ∨
      isIdentifier identifier = true ∧ ∃ first, scope.owner? identifier = some first ∧
        fault = .duplicateIdentifier ⟨identifier, first, key⟩ := by
  rw [claimName, Registry.claim]
  cases isIdentifier identifier <;> cases scope.owner? identifier <;> simp [eq_comm]

theorem claimNames_eq_ok_iff {file : Path} {scope result : Registry}
    {claims : List (String × String)} :
    claimNames file scope claims = .ok result ↔
      (∀ claim ∈ claims, isIdentifier claim.1) ∧ claimAll scope claims = .ok result := by
  induction claims generalizing scope with
  | nil => simp [claimNames, claimAll]
  | cons claim rest ih =>
    rw [claimNames, Checked.bind_eq_ok]
    simp only [claimName_eq_ok_iff, ih, List.forall_mem_cons, claimAll]
    cases scope.claim claim.1 claim.2 <;> simp [and_assoc]

theorem claimNames_eq_foldlM (file : Path) (scope : Registry) (claims : List (String × String)) :
    claimNames file scope claims =
      claims.foldlM (fun scope claim => claimName file scope claim.1 claim.2) scope := by
  induction claims generalizing scope with
  | nil => rfl
  | cons claim rest ih =>
    rw [claimNames, List.foldlM_cons]
    exact bind_congr ih

/-- Names are refused at the first that the scope with the names before it refuses. -/
theorem claimNames_eq_error_iff {file : Path} {scope : Registry} {claims : List (String × String)}
    {fault : Fault} :
    claimNames file scope claims = .error fault ↔
      ∃ before claim after, claims = before ++ claim :: after ∧
        ∃ next, claimNames file scope before = .ok next ∧
          claimName file next claim.1 claim.2 = .error fault := by
  simp only [claimNames_eq_foldlM, Checked.foldlM_eq_error_iff]

/-- A scope of a module that refuses a name as taken refuses it as any scope does: the names before
it can all be spelled. -/
theorem claimAll_eq_duplicate_of_claimNames {file : Path} {scope : Registry}
    {claims : List (String × String)} {clash : Clash}
    (h : claimNames file scope claims = .error (.duplicateIdentifier clash)) :
    claimAll scope claims = .error (.duplicateIdentifier clash) := by
  obtain ⟨before, claim, after, rfl, next, hBefore, hClaim⟩ := claimNames_eq_error_iff.mp h
  obtain ⟨-, hBefore⟩ := claimNames_eq_ok_iff.mp hBefore
  rcases claimName_eq_error_iff.mp hClaim with ⟨-, hFault⟩ | ⟨-, first, hOwner, hFault⟩
  · cases hFault
  · exact claimAll_eq_error_iff.mpr
      ⟨before, claim, after, first, rfl, ⟨next, hBefore, hOwner⟩, hFault⟩

/-- Names that no two claims share are never refused as taken by an empty scope. -/
theorem claimNames_empty_ne_duplicate {claims : List (String × String)}
    (hNodup : (claims.map (·.1)).Nodup) (file : Path) (clash : Clash) :
    claimNames file .empty claims ≠ .error (.duplicateIdentifier clash) := by
  intro h
  obtain ⟨scope, hScope⟩ := claimAll_empty_isOk_iff.mpr hNodup
  rw [claimAll_eq_duplicate_of_claimNames h] at hScope
  cases hScope

/-- A name that is refused as taken has an owner, which is told: an earlier claim, or one that the
scope was handed over with. -/
theorem exists_owner_of_claimNames_eq_duplicate {file : Path} {scope : Registry}
    {claims : List (String × String)} {clash : Clash}
    (h : claimNames file scope claims = .error (.duplicateIdentifier clash)) :
    ∃ before after, claims = before ++ (clash.identifier, clash.second) :: after ∧
      (clash.identifier, clash.first) ∈ scope.owners ++ before := by
  obtain ⟨before, claim, after, first, hClaims, ⟨next, hNext, hOwner⟩, hClash⟩ :=
    claimAll_eq_error_iff.mp (claimAll_eq_duplicate_of_claimNames h)
  obtain ⟨-, -, rfl⟩ := claimAll_eq_ok_iff.mp hNext
  cases hClash
  exact ⟨before, after, hClaims, mem_of_lookup hOwner⟩

theorem claimNames_append_isOk_iff {file : Path} {scope : Registry}
    {first second : List (String × String)} :
    (∃ result, claimNames file scope (first ++ second) = .ok result) ↔
      ∃ next, claimNames file scope first = .ok next ∧
        ∃ result, claimNames file next second = .ok result := by
  simp only [claimNames_eq_foldlM, List.foldlM_append, Checked.bind_eq_ok]
  constructor
  · rintro ⟨result, next, hFirst, hSecond⟩
    exact ⟨next, hFirst, result, hSecond⟩
  · rintro ⟨next, hFirst, result, hSecond⟩
    exact ⟨result, next, hFirst, hSecond⟩

/-- An empty scope of a module takes names that are claimable. -/
theorem claimNames_empty_isOk_iff (file : Path) (claims : List (String × String)) :
    (∃ scope, claimNames file .empty claims = .ok scope) ↔ Claimable (claims.map (·.1)) := by
  simp only [claimNames_eq_ok_iff, exists_and_left, claimAll_empty_isOk_iff, Claimable,
    List.forall_mem_map]

/-- An empty scope of a module refuses names at the first that cannot be spelled or is that of an
earlier claim, whose key the fault tells. The names before it are claimable. -/
theorem claimNames_empty_eq_error_iff {file : Path} {claims : List (String × String)}
    {fault : Fault} :
    claimNames file .empty claims = .error fault ↔
      ∃ before claim after, claims = before ++ claim :: after ∧ Claimable (before.map (·.1)) ∧
        ((isIdentifier claim.1 = false ∧
            fault = .definition file (.notIdentifier claim.2 claim.1)) ∨
          ∃ first, (claim.1, first) ∈ before ∧
            fault = .duplicateIdentifier ⟨claim.1, first, claim.2⟩) := by
  rw [claimNames_eq_error_iff]
  refine exists_congr fun before => exists_congr fun claim => exists_congr fun after =>
    and_congr_right fun _ => ?_
  constructor
  · rintro ⟨next, hBefore, hClaim⟩
    refine ⟨(claimNames_empty_isOk_iff file before).mp ⟨next, hBefore⟩, ?_⟩
    obtain ⟨-, hAll⟩ := claimNames_eq_ok_iff.mp hBefore
    obtain ⟨-, -, rfl⟩ := claimAll_eq_ok_iff.mp hAll
    rcases claimName_eq_error_iff.mp hClaim with hUnspelled | ⟨-, first, hOwner, hFault⟩
    · exact .inl hUnspelled
    · exact .inr ⟨first, mem_of_lookup hOwner, hFault⟩
  · rintro ⟨hClaimable, hClaim⟩
    obtain ⟨next, hBefore⟩ := (claimNames_empty_isOk_iff file before).mpr hClaimable
    refine ⟨next, hBefore, claimName_eq_error_iff.mpr ?_⟩
    obtain ⟨-, hAll⟩ := claimNames_eq_ok_iff.mp hBefore
    obtain ⟨hNodup, -, rfl⟩ := claimAll_eq_ok_iff.mp hAll
    rcases hClaim with hUnspelled | ⟨first, hFirst, hFault⟩
    · exact .inl hUnspelled
    · refine .inr ⟨hClaimable.1 claim.1 (List.mem_map.mpr ⟨_, hFirst, rfl⟩), first, ?_, hFault⟩
      exact (lookup_eq_some_iff_mem hNodup).mpr hFirst

end ResourceTables
