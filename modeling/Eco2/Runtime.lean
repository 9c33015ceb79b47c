/-
The chain as a machine: an extrinsic comes in, a receipt and a new state come out.

The runtime composes the three pallets with native transfers (`construct_runtime!`
in `runtime/src/lib.rs`). An extrinsic may carry any origin and any timestamp,
and an extrinsic that fails keeps the writes it made before failing: FRAME 2.0
rolls a dispatchable back only under `#[transactional]`, which none of the calls
carries.

`Outcome` lists everything one transition can be, and `outcome_of_fire` says the
list is complete. It is the only place where an invariant proof meets the
dispatchables.
-/
import Eco2.Machine
import Eco2.ExchangeStep
import Eco2.StandardAssets

set_option autoImplicit false
set_option linter.unusedSectionVars false

open Eco2.Dispatch

namespace Eco2

variable {AccountId Hash : Type} [DecidableEq AccountId] [DecidableEq Hash]

/-! ## Extrinsics and receipts -/

/-- The runtime's `Call`, as far as it reaches the custom pallets and the native
balances they use. -/
inductive Call (AccountId Hash : Type)
  | carbonAssets (call : CarbonAssets.Call AccountId Hash)
  | carbonExchange (call : CarbonExchange.Call Hash)
  | standardAssets (call : StandardAssets.Call AccountId Hash)
  | balances_transfer (dest : AccountId) (value : ℕ)

/-- A call with the origin it is dispatched from and the timestamp of its block. -/
structure Extrinsic (AccountId Hash : Type) where
  origin : Origin AccountId
  now : Moment
  call : Call AccountId Hash

/-- What an extrinsic leaves besides the new state. -/
structure Receipt (AccountId Hash : Type) where
  result : Except DispatchError Unit
  events : List (Event AccountId Hash)
  ops : List (Op AccountId Hash)

/-- A transition of the chain. -/
abbrev Applied (AccountId Hash : Type) :=
  Transition (World AccountId Hash) (Extrinsic AccountId Hash) (Receipt AccountId Hash)

/-- The call succeeded. -/
def Applied.Succeeded (t : Applied AccountId Hash) : Prop := t.output.result = .ok ()

instance : DecidablePred (@Applied.Succeeded AccountId Hash) :=
  fun t => inferInstanceAs (Decidable (t.output.result = .ok ()))

/-! ## What is hashed -/

section Preimages

variable {AccountId Hash : Type}

/-- The account that signs the submission of a preimage. -/
def Preimage.signer : Preimage AccountId Hash → AccountId
  | .project sender _ _ _ => sender
  | .asset sender _ _ _ _ => sender
  | .issue sender _ _ _ => sender
  | .burn sender _ _ _ => sender
  | .order maker _ _ _ _ _ _ => maker
  | .ecrc10 origin _ _ _ _ _ => origin

/-- The call that submits a preimage. -/
def Preimage.call : Preimage AccountId Hash → Call AccountId Hash
  | .project _ symbol max_supply additional =>
      .carbonAssets (.submit_project symbol max_supply additional)
  | .asset _ project_id vintage initial_supply additional =>
      .carbonAssets (.submit_asset project_id vintage initial_supply additional)
  | .issue _ asset_id amount additional =>
      .carbonAssets (.submit_issue asset_id amount additional)
  | .burn _ asset_id amount additional => .carbonAssets (.submit_burn asset_id amount additional)
  | .order _ asset_id money_id price amount direction salt =>
      .carbonExchange (.make_order asset_id money_id price amount direction salt)
  | .ecrc10 _ symbol name decimals max_supply first_supply =>
      .standardAssets (.issue symbol name decimals max_supply first_supply)

/-- The tuple that an extrinsic hashes. -/
def Extrinsic.preimage (x : Extrinsic AccountId Hash) : Option (Preimage AccountId Hash) :=
  match x.origin, x.call with
  | .signed sender, .carbonAssets (.submit_project symbol max_supply additional) =>
      some (.project sender symbol max_supply additional)
  | .signed sender, .carbonAssets (.submit_asset project_id vintage initial_supply additional) =>
      some (.asset sender project_id vintage initial_supply additional)
  | .signed sender, .carbonAssets (.submit_issue asset_id amount additional) =>
      some (.issue sender asset_id amount additional)
  | .signed sender, .carbonAssets (.submit_burn asset_id amount additional) =>
      some (.burn sender asset_id amount additional)
  | .signed maker, .carbonExchange
      (.make_order asset_id money_id price amount direction salt) =>
      some (.order maker asset_id money_id price amount direction salt)
  | .signed origin, .standardAssets (.issue symbol name decimals max_supply first_supply) =>
      some (.ecrc10 origin symbol name decimals max_supply first_supply)
  | _, _ => none

/-- An extrinsic is the submission of its preimage. -/
theorem preimage_eq_some_iff {x : Extrinsic AccountId Hash} {p : Preimage AccountId Hash} :
    x.preimage = some p ↔ x.origin = .signed p.signer ∧ x.call = p.call := by
  obtain ⟨origin, now, call⟩ := x
  constructor
  · intro h
    simp only [Extrinsic.preimage] at h
    split at h <;> cases h <;> exact ⟨rfl, rfl⟩
  · rintro ⟨horigin, hcall⟩
    obtain rfl : origin = _ := horigin
    obtain rfl : call = _ := hcall
    cases p <;> rfl

/-- The hash does not collide on what the extrinsics hash. -/
def HashSeparates (T : Trait AccountId Hash) (xs : List (Extrinsic AccountId Hash)) : Prop :=
  ∀ x ∈ xs, ∀ p ∈ x.preimage, ∀ y ∈ xs, ∀ q ∈ y.preimage, T.hash_of p = T.hash_of q → p = q

theorem hashSeparates_of_injective {T : Trait AccountId Hash} (h : Function.Injective T.hash_of)
    (xs : List (Extrinsic AccountId Hash)) : HashSeparates T xs :=
  fun _ _ _ _ _ _ _ _ heq => h heq

/-- Two calls of a history that hash to the same identifier hash the same. -/
theorem HashSeparates.preimage_eq {T : Trait AccountId Hash} {tr : List (Applied AccountId Hash)}
    (h : HashSeparates T (tr.map Transition.input)) {t u : Applied AccountId Hash} (ht : t ∈ tr)
    (hu : u ∈ tr) {p q : Preimage AccountId Hash} (hp : t.input.preimage = some p)
    (hq : u.input.preimage = some q) (heq : T.hash_of p = T.hash_of q) : p = q :=
  h _ (List.mem_map_of_mem ht) p hp _ (List.mem_map_of_mem hu) q hq heq

end Preimages

/-! ## The machine -/

section Machine

variable (T : Trait AccountId Hash)

def Call.dispatch (origin : Origin AccountId) :
    Call AccountId Hash → Dispatchable AccountId Hash Unit
  | .carbonAssets call => call.dispatch T origin
  | .carbonExchange call => call.dispatch T origin
  | .standardAssets call => call.dispatch T origin
  | .balances_transfer dest value => Eco2.balances_transfer T origin dest value

/-- Applying an extrinsic to a state. -/
def apply_extrinsic (w : World AccountId Hash) (x : Extrinsic AccountId Hash) :
    Receipt AccountId Hash × World AccountId Hash :=
  match x.call.dispatch T x.origin { world := w, now := x.now, events := [], ops := [] } with
  | .ok _ c => ({ result := .ok (), events := c.events, ops := c.ops }, c.world)
  -- no rollback: the state of a failed call is the one it had reached
  | .error e c => ({ result := .error e, events := c.events, ops := c.ops }, c.world)

def runtime :
    Machine (World AccountId Hash) (Extrinsic AccountId Hash) (Receipt AccountId Hash) where
  step := apply_extrinsic T

/-- The transition of a call that returns `Ok`. -/
theorem fire_of_ok {w : World AccountId Hash} {x : Extrinsic AccountId Hash} {u : Unit}
    {c : Ctx AccountId Hash}
    (h : x.call.dispatch T x.origin { world := w, now := x.now, events := [], ops := [] }
      = .ok u c) :
    (runtime T).fire w x
      = { pre := w, input := x
          output := { result := .ok (), events := c.events, ops := c.ops }, post := c.world } := by
  simp only [Machine.fire, runtime, apply_extrinsic, h]

end Machine

/-- The state before any call: the pallets' storage is empty. -/
def genesis (native : AccountId → ℕ) : World AccountId Hash where
  carbon := .empty
  standard := .empty
  Orders := .empty
  native := native

/-! ## What one transition can be -/

/-- The transitions of the runtime: a refused call that changed nothing, a step of
one of the pallets, a half-done take, or a native transfer. -/
inductive Outcome (T : Trait AccountId Hash) : Applied AccountId Hash → Prop
  | refused (w : World AccountId Hash) (x : Extrinsic AccountId Hash) (e : DispatchError) :
      Outcome T ⟨w, x, ⟨.error e, [], []⟩, w⟩
  | carbonAssets (w : World AccountId Hash) (origin : Origin AccountId) (now : Moment)
      (call : CarbonAssets.Call AccountId Hash) (s' : CarbonAssets.Storage AccountId Hash)
      (events : List (CarbonAssets.Event AccountId Hash)) (ops : List (Op AccountId Hash))
      (hstep : CarbonAssets.Step T origin now w.carbon call s' events ops) :
      Outcome T ⟨w, ⟨origin, now, .carbonAssets call⟩,
        ⟨.ok (), events.map .carbonAssets, ops⟩, { w with carbon := s' }⟩
  | carbonExchange (w : World AccountId Hash) (origin : Origin AccountId) (now : Moment)
      (call : CarbonExchange.Call Hash) (w' : World AccountId Hash)
      (events : List (CarbonExchange.Event AccountId Hash)) (ops : List (Op AccountId Hash))
      (hstep : CarbonExchange.Step T origin now w call w' events ops) :
      Outcome T ⟨w, ⟨origin, now, .carbonExchange call⟩,
        ⟨.ok (), events.map .carbonExchange, ops⟩, w'⟩
  | half_take (w : World AccountId Hash) (origin : Origin AccountId) (now : Moment)
      (call : CarbonExchange.Call Hash) (w' : World AccountId Hash) (e : DispatchError)
      (ops : List (Op AccountId Hash))
      (hhalf : CarbonExchange.HalfTake T origin w call w' ops) :
      Outcome T ⟨w, ⟨origin, now, .carbonExchange call⟩, ⟨.error e, [], ops⟩, w'⟩
  | standardAssets (w : World AccountId Hash) (origin : Origin AccountId) (now : Moment)
      (call : StandardAssets.Call AccountId Hash) (s' : StandardAssets.Storage AccountId Hash)
      (events : List (StandardAssets.Event AccountId Hash))
      (ops : List (CellOp (StandardAssets.Cell AccountId Hash)))
      (hstep : StandardAssets.Step T origin now w.standard call s' events ops) :
      Outcome T ⟨w, ⟨origin, now, .standardAssets call⟩,
        ⟨.ok (), events.map .standardAssets, ops.map .standard⟩, { w with standard := s' }⟩
  | balances_transfer (w : World AccountId Hash) (src : AccountId) (now : Moment)
      (dest : AccountId) (value : ℕ) (native : AccountId → ℕ)
      (hnative : T.transfer w.native src dest value = some native) :
      Outcome T ⟨w, ⟨.signed src, now, .balances_transfer dest value⟩,
        ⟨.ok (), [], [.payment src dest value]⟩, { w with native }⟩

/-- Every transition of the runtime is one of these. -/
theorem outcome_of_fire (T : Trait AccountId Hash) (w : World AccountId Hash)
    (x : Extrinsic AccountId Hash) : Outcome T ((runtime T).fire w x) := by
  obtain ⟨origin, now, call⟩ := x
  unfold Machine.fire runtime apply_extrinsic
  simp only
  cases hdispatch : call.dispatch T origin ⟨w, now, [], []⟩ with
  | ok u c =>
    cases call with
    | carbonAssets call =>
      obtain ⟨s', events, ops, hstep, rfl⟩ := CarbonAssets.step_of_ok hdispatch
      exact .carbonAssets w origin now call s' events ops hstep
    | carbonExchange call =>
      obtain ⟨w', events, ops, hstep, rfl⟩ := CarbonExchange.step_of_ok hdispatch
      exact .carbonExchange w origin now call w' events ops hstep
    | standardAssets call =>
      obtain ⟨s', events, ops, hstep, rfl⟩ := StandardAssets.step_of_ok hdispatch
      exact .standardAssets w origin now call s' events ops hstep
    | balances_transfer dest value =>
      obtain ⟨src, rfl, native, hnative, rfl⟩ := balances_transfer_eq_ok hdispatch
      exact .balances_transfer w src now dest value native hnative
  | error e c =>
    -- all pallets but the exchange are all or nothing
    have hrefused (h : c = ⟨w, now, [], []⟩) :
        Outcome T ⟨w, ⟨origin, now, call⟩, ⟨.error e, c.events, c.ops⟩, c.world⟩ := by
      subst h
      exact .refused w _ e
    cases call with
    | carbonAssets call =>
      exact hrefused (CarbonAssets.atomic_dispatch T origin call _ e c hdispatch)
    | carbonExchange call =>
      rcases CarbonExchange.dispatch_error hdispatch with h | ⟨w', ops, hhalf, rfl⟩
      · exact hrefused h
      · exact .half_take w origin now call w' e ops hhalf
    | standardAssets call =>
      exact hrefused (StandardAssets.atomic_dispatch T origin call _ e c hdispatch)
    | balances_transfer dest value =>
      exact hrefused (atomic_balances_transfer T origin dest value _ e c hdispatch)

/-- A successful call of the exchange is one of its steps. -/
theorem exchange_step_of_call {T : Trait AccountId Hash} {t : Applied AccountId Hash}
    (h : Outcome T t) {call : CarbonExchange.Call Hash}
    (hcall : t.input.call = .carbonExchange call) (hok : t.Succeeded) :
    ∃ events, CarbonExchange.Step T t.input.origin t.input.now t.pre call t.post events
      t.output.ops := by
  cases h with
  | refused => cases hok
  | half_take => cases hok
  | carbonAssets => cases hcall
  | standardAssets => cases hcall
  | balances_transfer => cases hcall
  | carbonExchange w origin now call w' events ops hstep =>
    cases hcall
    exact ⟨events, hstep⟩

/-- A call of the carbon pallet succeeds where one of its steps can be made. -/
theorem carbon_succeeded_iff (T : Trait AccountId Hash) (w : World AccountId Hash)
    (origin : Origin AccountId) (now : Moment) (call : CarbonAssets.Call AccountId Hash) :
    Applied.Succeeded ((runtime T).fire w ⟨origin, now, .carbonAssets call⟩)
      ↔ ∃ s' events ops, CarbonAssets.Step T origin now w.carbon call s' events ops := by
  constructor
  · intro hok
    cases hdispatch : call.dispatch T origin ⟨w, now, [], []⟩ with
    | ok u c =>
      obtain ⟨s', events, ops, hstep, -⟩ := CarbonAssets.step_of_ok hdispatch
      exact ⟨s', events, ops, hstep⟩
    | error e c =>
      simp [Applied.Succeeded, Machine.fire, runtime, apply_extrinsic, Call.dispatch,
        hdispatch] at hok
  · rintro ⟨s', events, ops, hstep⟩
    obtain ⟨c', hdispatch⟩ := CarbonAssets.ok_of_step (c := ⟨w, now, [], []⟩) hstep
    rw [fire_of_ok T (x := ⟨origin, now, .carbonAssets call⟩) hdispatch]
    exact rfl

/-- Every transition of a run is one of these. -/
theorem outcome_of_mem {T : Trait AccountId Hash} {allowed : Applied AccountId Hash → Prop}
    {w₀ w : World AccountId Hash} {tr : List (Applied AccountId Hash)}
    (hrun : (runtime T).Run allowed w₀ tr w) {t : Applied AccountId Hash} (ht : t ∈ tr) :
    Outcome T t := by
  obtain ⟨_, _, hfire, _⟩ := hrun.of_mem ht
  rw [hfire]
  exact outcome_of_fire T t.pre t.input

/-! ## An executable `transfer` that behaves as documented -/

section Documented

/-- `transfer` of `pallet_balances` 2.0, on the free balances. -/
def documented_transfer (b : AccountId → ℕ) (src dst : AccountId) (value : ℕ) :
    Option (AccountId → ℕ) :=
  if value = 0 ∨ src = dst then some b
  -- the call is `transfer`, not `transfer_keep_alive`: the sender may die of it
  else if value ≤ b src ∧ ExistentialDeposit ≤ b dst + value then
    some fun x =>
      if x = src then reaped (b src - value) else if x = dst then b dst + value else b x
  else none

theorem documented_transfer_eq_some {b b' : AccountId → ℕ} {src dst : AccountId} {value : ℕ}
    (hvalue : value ≠ 0) (hne : src ≠ dst) :
    documented_transfer b src dst value = some b'
      ↔ (value ≤ b src ∧ ExistentialDeposit ≤ b dst + value)
        ∧ (fun x => if x = src then reaped (b src - value)
            else if x = dst then b dst + value else b x) = b' := by
  rw [documented_transfer, if_neg (not_or.mpr ⟨hvalue, hne⟩)]
  by_cases h : value ≤ b src ∧ ExistentialDeposit ≤ b dst + value
  · rw [if_pos h, Option.some_inj]
    exact (and_iff_right h).symm
  · rw [if_neg h]
    exact iff_of_false (fun hsome => nomatch hsome) fun hsome => h hsome.1

/-- The executable `transfer` does what the documentation promises. -/
theorem transferDocumented_documented_transfer :
    TransferDocumented (@documented_transfer AccountId _) where
  noop b src dst value h := if_pos h
  funds b src dst value b' hvalue hne h := by
    obtain ⟨⟨hfunds, -⟩, -⟩ := (documented_transfer_eq_some hvalue hne).mp h
    exact hfunds
  alive b src dst value b' hvalue hne h := by
    obtain ⟨⟨-, halive⟩, -⟩ := (documented_transfer_eq_some hvalue hne).mp h
    exact halive
  sender b src dst value b' hvalue hne h := by
    obtain ⟨-, rfl⟩ := (documented_transfer_eq_some hvalue hne).mp h
    exact if_pos rfl
  receiver b src dst value b' hvalue hne h := by
    obtain ⟨-, rfl⟩ := (documented_transfer_eq_some hvalue hne).mp h
    exact (if_neg hne.symm).trans (if_pos rfl)
  others b src dst value b' h x hsrc hdst := by
    by_cases hnoop : value = 0 ∨ src = dst
    · rw [documented_transfer, if_pos hnoop] at h
      cases h
      rfl
    · obtain ⟨hvalue, hne⟩ := not_or.mp hnoop
      obtain ⟨-, rfl⟩ := (documented_transfer_eq_some hvalue hne).mp h
      exact (if_neg hsrc).trans (if_neg hdst)

/-- The tag and the fields of a preimage, each list led by its length: a hash
without collisions, for accounts that are numbers. -/
def Preimage.encode : Preimage ℕ (List ℕ) → List ℕ
  | .project sender symbol max_supply additional =>
      1 :: sender :: max_supply.toNat :: symbol.length
        :: (symbol.map UInt8.toNat ++ additional.map UInt8.toNat)
  | .asset sender project_id vintage initial_supply additional =>
      2 :: sender :: initial_supply.toNat :: project_id.length
        :: (project_id ++ vintage.length
          :: (vintage.map UInt8.toNat ++ additional.map UInt8.toNat))
  | .issue sender asset_id amount additional =>
      3 :: sender :: amount.toNat :: asset_id.length
        :: (asset_id ++ additional.map UInt8.toNat)
  | .burn sender asset_id amount additional =>
      4 :: sender :: amount.toNat :: asset_id.length
        :: (asset_id ++ additional.map UInt8.toNat)
  | .order maker asset_id money_id price amount direction salt =>
      5 :: maker :: price.toNat :: amount.toNat :: direction.toNat :: salt.toNat
        :: asset_id.length :: (asset_id ++ money_id)
  | .ecrc10 origin symbol name decimals max_supply first_supply =>
      6 :: origin :: decimals.toNat :: max_supply.toNat :: first_supply.toNat
        :: symbol.length :: (symbol.map UInt8.toNat ++ name.map UInt8.toNat)

/-- Bytes are told apart by their numbers. -/
theorem map_toNat_injective : Function.Injective (List.map UInt8.toNat) :=
  List.map_injective_iff.mpr fun _ _ h => UInt8.toNat_inj.mp h

/-- Two byte strings, the first led by its length. -/
theorem bytes_append_inj {a a' b b' : Bytes} (hlen : a.length = a'.length)
    (h : a.map UInt8.toNat ++ b.map UInt8.toNat = a'.map UInt8.toNat ++ b'.map UInt8.toNat) :
    a = a' ∧ b = b' := by
  obtain ⟨ha, hb⟩ := List.append_inj h (by simp only [List.length_map, hlen])
  exact ⟨map_toNat_injective ha, map_toNat_injective hb⟩

/-- The executable hash has no collisions. -/
theorem Preimage.encode_injective : Function.Injective Preimage.encode := by
  intro p q h
  -- the tag tells the constructors apart
  cases p <;> cases q <;>
    simp only [Preimage.encode, List.cons.injEq, Nat.reduceEqDiff, false_and, true_and,
      UInt64.toNat_inj, UInt8.toNat_inj] at h
  case project.project =>
    obtain ⟨rfl, rfl, hlen, hbytes⟩ := h
    obtain ⟨rfl, rfl⟩ := bytes_append_inj hlen hbytes
    rfl
  case asset.asset =>
    obtain ⟨rfl, rfl, hlen, hfields⟩ := h
    obtain ⟨rfl, hrest⟩ := List.append_inj hfields hlen
    obtain ⟨hlen', hbytes⟩ := List.cons.inj hrest
    obtain ⟨rfl, rfl⟩ := bytes_append_inj hlen' hbytes
    rfl
  case issue.issue =>
    obtain ⟨rfl, rfl, hlen, hfields⟩ := h
    obtain ⟨rfl, hbytes⟩ := List.append_inj hfields hlen
    obtain rfl := map_toNat_injective hbytes
    rfl
  case burn.burn =>
    obtain ⟨rfl, rfl, hlen, hfields⟩ := h
    obtain ⟨rfl, hbytes⟩ := List.append_inj hfields hlen
    obtain rfl := map_toNat_injective hbytes
    rfl
  case order.order =>
    obtain ⟨rfl, rfl, rfl, rfl, rfl, hlen, hfields⟩ := h
    obtain ⟨rfl, rfl⟩ := List.append_inj hfields hlen
    rfl
  case ecrc10.ecrc10 =>
    obtain ⟨rfl, rfl, rfl, rfl, hlen, hbytes⟩ := h
    obtain ⟨rfl, rfl⟩ := bytes_append_inj hlen hbytes
    rfl

/-- A chain that can be executed: accounts are numbers, the pot is account 0. -/
def devnet : Trait ℕ (List ℕ) where
  hash_of := Preimage.encode
  default_hash := []
  pot_account_id := 0
  transfer := documented_transfer

/-- Any extrinsics make a run of the executable chain. -/
theorem devnet_run (native : ℕ → ℕ) (xs : List (Extrinsic ℕ (List ℕ))) :
    (runtime devnet).Run (fun _ => True) (genesis native)
      ((runtime devnet).trace (genesis native) xs) ((runtime devnet).final (genesis native) xs) :=
  Machine.run_trace _ _ fun _ _ => trivial

/-- Account 1's project on the executable chain, and its asset of five units. -/
def devnet_project : List ℕ := Preimage.encode (.project 1 [] 1000 [])

def devnet_asset : List ℕ := Preimage.encode (.asset 1 devnet_project [] 5 [])

/-- The calls that bring the project and the asset to approval. -/
def devnet_opening : List (Extrinsic ℕ (List ℕ)) :=
  [⟨.signed 1, 0, .carbonAssets (.submit_project [] 1000 [])⟩,
    ⟨.system .Root, 0, .carbonAssets (.approve_project devnet_project)⟩,
    ⟨.signed 1, 0, .carbonAssets (.submit_asset devnet_project [] 5 [])⟩,
    ⟨.system .Root, 0, .carbonAssets (.approve_asset devnet_asset)⟩]

end Documented

end Eco2
