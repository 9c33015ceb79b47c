/-
Who can make more of a standard asset.

The units of an asset are made by the account that issues it: the first supply when
it is issued, and more by minting. But `mint` looks neither at the caller nor at the
identifier, so anyone can mint any asset, also under an identifier that nobody has
issued yet; and `burn`, which checks the balance and not the total supply, wraps a
total supply that is less than the balance. `mint_authority_iff` says what it takes of
the mints and burns of a run for it to keep to the issuer's authority.
-/
import Eco2.StandardLedger

set_option autoImplicit false
set_option linter.unusedSectionVars false

namespace Eco2

namespace StandardAssets

variable {AccountId Hash : Type} [DecidableEq AccountId] [DecidableEq Hash]

/-! ## More units, and none -/

/-- There is more of `id` than before, in its total supply or in all balances together. -/
def Grows (s s' : Storage AccountId Hash) (id : Hash) : Prop :=
  s.total_supply id < s'.total_supply id ∨ s.held id < s'.held id

/-- There is nothing of `id`. -/
structure Storage.Void (s : Storage AccountId Hash) (id : Hash) : Prop where
  total : s.total_supply id = 0
  balances : ∀ who, s.balance id who = 0

section Set

variable (s : Storage AccountId Hash) (id : Hash) (who : AccountId) (balance total : UInt64)

/-- Writing a balance and the total supply of an asset makes more of what it increases. -/
theorem grows_set_iff (id' : Hash) :
    Grows s ((s.set_balance id who balance).set_total_supply id total) id'
      ↔ id' = id ∧ (s.total_supply id < total ∨ s.balance id who < balance) := by
  unfold Grows
  rw [total_supply_set_total_supply, total_supply_set_balance, held_set_total_supply]
  by_cases hid : id' = id
  · subst hid
    have hset := held_set_balance_self s id' who balance
    rw [if_pos rfl, and_iff_right rfl]
    apply or_congr_right
    rw [UInt64.lt_iff_toNat_lt]
    omega
  · rw [if_neg hid, held_set_balance_of_ne s id who balance (Ne.symm hid)]
    refine iff_of_false ?_ fun h => hid h.1
    rw [not_or]
    exact ⟨UInt64.lt_irrefl _, Nat.lt_irrefl _⟩

variable {s id}

theorem Storage.Void.set {id' : Hash} (h : s.Void id') (hne : id' ≠ id) :
    ((s.set_balance id who balance).set_total_supply id total).Void id' := by
  constructor
  · rw [total_supply_set_total_supply, if_neg hne]
    exact h.total
  · intro who'
    have hcell := balance_set_balance s id id' who who' balance
    rw [if_neg fun hc => hne hc.1] at hcell
    exact hcell.trans (h.balances who')

end Set

/-! ## Authority -/

/-- The call, signed by `who`, issues `id`. -/
def Call.Creates (T : Trait AccountId Hash) (origin : Origin AccountId)
    (call : Call AccountId Hash) (who : AccountId) (id : Hash) : Prop :=
  ∃ symbol name decimals max_supply first_supply, origin = .signed who
    ∧ call = .issue symbol name decimals max_supply first_supply
    ∧ id = T.hash_of (.ecrc10 who symbol name decimals max_supply first_supply)

/-- The call is a mint of nothing or by an issuer, or else one that wraps both cells;
or it is a burn of what the total supply covers or by an issuer. -/
def Authorised (issuer : AccountId → Hash → Prop) (origin : Origin AccountId)
    (s : Storage AccountId Hash) : Call AccountId Hash → Prop
  | .mint id amount => ∀ who, origin = .signed who → amount = 0 ∨ issuer who id
      ∨ (2 ^ 64 ≤ (s.total_supply id).toNat + amount.toNat
        ∧ 2 ^ 64 ≤ (s.balance id who).toNat + amount.toNat)
  | .burn id amount => ∀ who, origin = .signed who →
      amount ≤ s.total_supply id ∨ issuer who id
  | _ => True

/-- What grows is issued by the call, or was issued by who signs it. -/
def SignedByIssuer (T : Trait AccountId Hash) (issuer : AccountId → Hash → Prop)
    (origin : Origin AccountId) (call : Call AccountId Hash)
    (s s' : Storage AccountId Hash) : Prop :=
  ∀ id, Grows s s' id → (∃ who, call.Creates T origin who id)
    ∨ ∃ who, origin = .signed who ∧ issuer who id

section Steps

variable {T : Trait AccountId Hash} {issuer : AccountId → Hash → Prop}
  {origin : Origin AccountId} {now : Moment} {s s' : Storage AccountId Hash}
  {call : Call AccountId Hash} {events : List (Event AccountId Hash)}
  {ops : List (CellOp (Cell AccountId Hash))}

/-- Whether the step makes units with authority. -/
theorem Step.signed_by_issuer_iff (h : Step T origin now s call s' events ops) :
    SignedByIssuer T issuer origin call s s' ↔ Authorised issuer origin s call := by
  cases h with
  | issue who symbol name decimals max_supply first_supply asset_id horigin hid hfresh =>
    refine iff_of_true ?_ trivial
    intro id' hgrows
    obtain ⟨rfl, -⟩ := (grows_set_iff s asset_id who first_supply first_supply id').mp hgrows
    exact .inl ⟨who, symbol, name, decimals, max_supply, first_supply, horigin, rfl, hid⟩
  | transfer who id target amount s₁ horigin hamount hbalance hs₁ =>
    refine iff_of_true ?_ trivial
    subst hs₁
    rintro id' (htotal | hheld)
    · exact absurd htotal (UInt64.lt_irrefl _)
    · exact absurd (Ledger.held_transfer_le s.Balances id id' hbalance) (Nat.not_le.mpr hheld)
  | mint who id amount horigin =>
    subst horigin
    unfold SignedByIssuer
    simp only [grows_set_iff, U64.lt_add_iff, ← and_or_left]
    constructor
    · intro hsigned who' heq
      cases heq
      by_contra hnot
      rw [not_or, not_or] at hnot
      obtain ⟨hamount, hissuer, hwrap⟩ := hnot
      -- one of the two cells grows, and the caller is no issuer
      obtain ⟨_, _, _, _, _, _, -, hcall, -⟩ | ⟨who', heq, hissuer'⟩ :=
        hsigned id ⟨rfl, hamount, by omega⟩
      · cases hcall
      · cases heq
        exact hissuer hissuer'
    · rintro hauth id' ⟨rfl, hne, hgrows⟩
      obtain hamount | hissuer | hwrap := hauth who rfl
      · exact absurd hamount hne
      · exact .inr ⟨who, rfl, hissuer⟩
      · omega
  | burn who id amount horigin hamount hbalance =>
    subst horigin
    unfold SignedByIssuer
    simp only [grows_set_iff, U64.lt_sub_iff]
    constructor
    · intro hsigned who' heq
      cases heq
      by_contra hnot
      rw [not_or] at hnot
      obtain ⟨hle, hissuer⟩ := hnot
      obtain ⟨_, _, _, _, _, _, -, hcall, -⟩ | ⟨who', heq, hissuer'⟩ :=
        hsigned id ⟨rfl, .inl (UInt64.not_le.mp hle)⟩
      · cases hcall
      · cases heq
        exact hissuer hissuer'
    · rintro hauth id' ⟨rfl, hgrows⟩
      obtain hle | hissuer := hauth who rfl
      · obtain hlt | hlt := hgrows
        · exact absurd hle (UInt64.not_le.mpr hlt)
        · exact absurd hbalance (UInt64.not_le.mpr hlt)
      · exact .inr ⟨who, rfl, hissuer⟩

/-- With authority, a step leaves nothing of what nobody has issued. -/
theorem Step.void (hvoid : ∀ id, (∀ who, ¬issuer who id) → s.Void id)
    (h : Step T origin now s call s' events ops) (hauth : Authorised issuer origin s call)
    {id : Hash} (hunissued : ∀ who, ¬issuer who id)
    (huncreated : ∀ who, ¬call.Creates T origin who id) : s'.Void id := by
  have hbefore := hvoid id hunissued
  cases h with
  | issue who symbol name decimals max_supply first_supply asset_id horigin hid hfresh =>
    have hne : id ≠ asset_id := fun heq => huncreated who
      ⟨symbol, name, decimals, max_supply, first_supply, horigin, rfl, heq.trans hid⟩
    have hset := hbefore.set who first_supply first_supply hne
    exact ⟨hset.total, hset.balances⟩
  | transfer who id' target amount s₁ horigin hamount hbalance hs₁ =>
    subst hs₁
    -- what is sent was there
    have hne : id ≠ id' := by
      rintro rfl
      rw [hbefore.balances who] at hbalance
      exact hamount (UInt64.le_zero_iff.mp hbalance)
    refine ⟨hbefore.total, fun who' => ?_⟩
    rw [balance_set_balance, if_neg fun hc => hne hc.1, balance_set_balance,
      if_neg fun hc => hne hc.1]
    exact hbefore.balances who'
  | mint who id' amount horigin =>
    by_cases hid : id = id'
    · subst hid
      obtain hamount | hissuer | ⟨hwrap, -⟩ := hauth who horigin
      · subst hamount
        constructor
        · rw [total_supply_set_total_supply, if_pos rfl, hbefore.total]
          rfl
        · intro who'
          change (s.set_balance id who _).balance id who' = 0
          rw [balance_set_balance, hbefore.balances who, hbefore.balances who']
          split <;> rfl
      · exact absurd hissuer (hunissued who)
      · have hlt := amount.toNat_lt
        rw [hbefore.total, UInt64.toNat_zero] at hwrap
        omega
    · exact hbefore.set who _ _ hid
  | burn who id' amount horigin hamount hbalance =>
    have hne : id ≠ id' := by
      rintro rfl
      rw [hbefore.balances who] at hbalance
      exact absurd hbalance (UInt64.not_le.mpr hamount)
    exact hbefore.set who _ _ hne

end Steps

end StandardAssets

/-! ## The chain -/

section Chain

open StandardAssets

variable {AccountId Hash : Type} [DecidableEq AccountId] [DecidableEq Hash]
variable {T : Trait AccountId Hash}

/-- In the transition `who` issues `id`. -/
def Applied.Issues (T : Trait AccountId Hash) (t : Applied AccountId Hash) (who : AccountId)
    (id : Hash) : Prop :=
  t.Succeeded ∧ ∃ call, t.input.call = .standardAssets call
    ∧ call.Creates T t.input.origin who id

/-- In the history `who` has issued `id`. -/
def Issuer (T : Trait AccountId Hash) (tr : List (Applied AccountId Hash)) (who : AccountId)
    (id : Hash) : Prop :=
  ∃ t ∈ tr, Applied.Issues T t who id

/-- After the history `tr`, the transition makes units of an asset only by its issue or
as signed by its issuer, and leaves nothing of an asset that nobody has issued. -/
structure MintAuthority (T : Trait AccountId Hash) (tr : List (Applied AccountId Hash))
    (t : Applied AccountId Hash) : Prop where
  signed : ∀ id, Grows t.pre.standard t.post.standard id →
    (∃ who, Applied.Issues T t who id) ∨ ∃ who, t.input.origin = .signed who ∧ Issuer T tr who id
  void : ∀ id, (∀ who, ¬Issuer T (tr ++ [t]) who id) → t.post.standard.Void id

/-- After the history `tr`, a successful call to the standard assets is authorised. -/
def MintsAuthorised (T : Trait AccountId Hash) (tr : List (Applied AccountId Hash))
    (t : Applied AccountId Hash) : Prop :=
  ∀ call, t.Succeeded → t.input.call = .standardAssets call →
    Authorised (Issuer T tr) t.input.origin t.pre.standard call

theorem issuer_snoc {tr : List (Applied AccountId Hash)} {t : Applied AccountId Hash}
    {who : AccountId} {id : Hash} :
    Issuer T (tr ++ [t]) who id ↔ Issuer T tr who id ∨ Applied.Issues T t who id := by
  unfold Issuer
  simp only [List.mem_append, List.mem_singleton, or_and_right, exists_or, exists_eq_left]

/-- Whether a transition keeps to the issuers' authority. -/
theorem Outcome.keeps_authority_iff {tr : List (Applied AccountId Hash)}
    {t : Applied AccountId Hash} (h : Outcome T t)
    (hvoid : ∀ id, (∀ who, ¬Issuer T tr who id) → t.pre.standard.Void id) :
    MintAuthority T tr t ↔ MintsAuthorised T tr t := by
  cases h.standard with
  | call call events ops hcall hok hops hstep =>
    have hissues (who : AccountId) (id : Hash) :
        Applied.Issues T t who id ↔ call.Creates T t.input.origin who id := by
      constructor
      · rintro ⟨-, call', hcall', hcreates⟩
        cases hcall.symm.trans hcall'
        exact hcreates
      · exact fun hcreates => ⟨hok, call, hcall, hcreates⟩
    have hauth : MintsAuthorised T tr t
        ↔ Authorised (Issuer T tr) t.input.origin t.pre.standard call := by
      constructor
      · exact fun hauth => hauth call hok hcall
      · intro hauth call' _ hcall'
        cases hcall.symm.trans hcall'
        exact hauth
    have hsigned : SignedByIssuer T (Issuer T tr) t.input.origin call t.pre.standard
        t.post.standard ↔ Authorised (Issuer T tr) t.input.origin t.pre.standard call :=
      hstep.signed_by_issuer_iff
    unfold SignedByIssuer at hsigned
    simp only [← hissues] at hsigned
    rw [hauth]
    constructor
    · exact fun hkept => hsigned.mp hkept.signed
    · intro hall
      refine ⟨hsigned.mpr hall, fun id hnone => ?_⟩
      simp only [issuer_snoc, not_or, hissues] at hnone
      exact hstep.void hvoid hall (fun who => (hnone who).1) fun who => (hnone who).2
  | idle hidle hops hsame =>
    refine iff_of_true ⟨?_, ?_⟩ fun call hok hcall => absurd hcall (hidle call hok)
    · intro id hgrows
      unfold Grows at hgrows
      rw [hsame] at hgrows
      obtain htotal | hheld := hgrows
      · exact absurd htotal (UInt64.lt_irrefl _)
      · exact absurd hheld (Nat.lt_irrefl _)
    · intro id hnone
      rw [hsame]
      exact hvoid id fun who hissuer => hnone who (issuer_snoc.mpr (.inl hissuer))

/-- A step stores no asset but the one it issues. -/
theorem StandardAssets.Step.info {origin : Origin AccountId} {now : Moment}
    {s s' : Storage AccountId Hash} {call : Call AccountId Hash}
    {events : List (Event AccountId Hash)} {ops : List (CellOp (Cell AccountId Hash))}
    (h : Step T origin now s call s' events ops) {id : Hash} (hpost : s'.AssetInfos.get id ≠ none) :
    s.AssetInfos.get id ≠ none ∨ ∃ who, call.Creates T origin who id := by
  cases h with
  | issue who symbol name decimals max_supply first_supply asset_id horigin hid hfresh =>
    by_cases heq : id = asset_id
    · exact .inr ⟨who, symbol, name, decimals, max_supply, first_supply, horigin, rfl,
        heq.trans hid⟩
    · refine .inl fun hnone => hpost ?_
      exact (StorageMap.get_insert_of_ne _ _ heq).trans hnone
  | transfer who id' target amount s₁ horigin hamount hbalance hs₁ =>
    subst hs₁
    exact .inl hpost
  | mint => exact .inl hpost
  | burn => exact .inl hpost

/-- Whatever is stored has been issued. -/
theorem issuer_of_info {allowed : Applied AccountId Hash → Prop} {native : AccountId → ℕ}
    {w : World AccountId Hash} {tr : List (Applied AccountId Hash)}
    (hrun : (runtime T).Run allowed (genesis native) tr w) {id : Hash}
    (h : w.standard.AssetInfos.get id ≠ none) : ∃ who, Issuer T tr who id := by
  revert h
  apply hrun.invariant (I := fun tr w =>
    w.standard.AssetInfos.get id ≠ none → ∃ who, Issuer T tr who id)
  · exact fun h => absurd rfl h
  intro tr w x _ ih _ hpost
  have hearlier (hpre : w.standard.AssetInfos.get id ≠ none) :
      ∃ who, Issuer T (tr ++ [(runtime T).fire w x]) who id := by
    obtain ⟨who, hissuer⟩ := ih hpre
    exact ⟨who, issuer_snoc.mpr (.inl hissuer)⟩
  cases (outcome_of_fire T w x).standard with
  | call call events ops hcall hok hops hstep =>
    obtain hpre | ⟨who, hcreates⟩ := hstep.info hpost
    · exact hearlier hpre
    · exact ⟨who, issuer_snoc.mpr (.inr ⟨hok, call, hcall, hcreates⟩)⟩
  | idle hidle hops hsame =>
    rw [hsame] at hpost
    exact hearlier hpost

/-- **Who makes units.** A run from genesis keeps to the issuers' authority if and only
if every mint and burn in it is authorised: a mint is of nothing or by the issuer, or
wraps the total supply and the balance, and a burn is of what the total supply covers or
by the issuer. -/
theorem mint_authority_iff {native : AccountId → ℕ} {w : World AccountId Hash}
    {tr : List (Applied AccountId Hash)}
    (hrun : (runtime T).Run (fun _ => True) (genesis native) tr w) :
    Machine.Along (MintAuthority T) tr ↔ Machine.Along (MintsAuthorised T) tr := by
  refine (hrun.along_iff
    (J := fun tr w => ∀ id, (∀ who, ¬Issuer T tr who id) → w.standard.Void id) ?_ ?_ ?_).1
  · exact fun id _ => ⟨rfl, fun _ => rfl⟩
  · exact fun tr w x _ hvoid _ => (outcome_of_fire T w x).keeps_authority_iff hvoid
  · intro tr w x _ hvoid _ hauth
    exact (((outcome_of_fire T w x).keeps_authority_iff hvoid).mpr hauth).void

theorem mint_authority_iff_issue_first :
    Machine.Along (MintAuthority devnet)
        ((runtime devnet).trace (genesis fun _ => 0) devnet_issue_first)
      ↔ Machine.Along (MintsAuthorised devnet)
        ((runtime devnet).trace (genesis fun _ => 0) devnet_issue_first) :=
  mint_authority_iff (devnet_run _ _)

/-- Account 1 issues an asset, and account 2 mints it. -/
def devnet_mint_stranger : List (Extrinsic ℕ (List ℕ)) :=
  [⟨.signed 1, 0, .standardAssets (.issue [] [] 0 100 10)⟩,
    ⟨.signed 2, 0, .standardAssets (.mint devnet_ecrc10 5)⟩]

/-- **A stranger's mint.** Both calls succeed, and account 2, who has issued nothing,
has made five units of the asset. -/
theorem mint_stranger_unauthorised :
    (runtime devnet).Run (fun _ => True) (genesis fun _ => 0)
      ((runtime devnet).trace (genesis fun _ => 0) devnet_mint_stranger)
      ((runtime devnet).final (genesis fun _ => 0) devnet_mint_stranger)
    ∧ (∀ t ∈ (runtime devnet).trace (genesis fun _ => 0) devnet_mint_stranger,
      Applied.Succeeded t)
    ∧ ¬Machine.Along (MintAuthority devnet)
      ((runtime devnet).trace (genesis fun _ => 0) devnet_mint_stranger) := by
  refine ⟨devnet_run _ _, by decide, fun hkept => ?_⟩
  obtain ⟨hsigned, -⟩ := hkept [_] _ [] rfl
  obtain ⟨who, -, call, hcall, _, _, _, _, _, -, hissue, -⟩ | ⟨who, horigin, hissuer⟩ :=
    hsigned devnet_ecrc10 (.inl (by decide))
  -- the mint is no issue, and its caller not the one who issued
  · cases hcall
    cases hissue
  · obtain ⟨t, ht, -, call, hcall, _, _, _, _, _, horigin', -⟩ := hissuer
    obtain rfl := List.mem_singleton.mp ht
    cases horigin
    cases horigin'

end Chain

end Eco2
