import BasedOp.Model.StateTransition

/-!
# The gas pool

A message that is included leaves the pool no fuller than it found it, and it would
have been included just the same on a fuller pool: the surplus is carried through
(`transitionDb_of_le`). It uses no more than its own gas, and, unless it is a system
transaction, what it uses comes out of the pool (`transitionDb_charges`).
-/

set_option autoImplicit false

namespace BasedOp.Analysis.GasPool

open Model Model.OpGeth

/-- The virtual machine never returns more gas than the message came with. -/
def GasSound (vm : VM) : Prop :=
  ∀ ctx A msg r, (vm.call ctx A msg).result = .ok r → r.gasRemaining ≤ msg.gasLimit

variable {amount : UInt64} {err : TxError} {t : Transition} {r : ExecutionResult}

section

variable {vm : VM} {config : ChainConfig} {ctx : BlockContext} {A : Accounts} {msg : Message}
  {gp gp' gp₂ : UInt64}

/-- Gas is taken if there is enough. -/
theorem subGas_eq_some (h : subGas gp amount = some gp') : amount ≤ gp ∧ gp' = gp - amount := by
  unfold subGas at h
  split at h
  · cases h
  · next hlt => exact ⟨UInt64.not_lt.mp hlt, (Option.some.inj h).symm⟩

/-- An amount that is there is taken. -/
theorem subGas_of_le (h : amount ≤ gp) : subGas gp amount = some (gp - amount) := by
  unfold subGas
  rw [if_neg (UInt64.not_lt.mpr h)]

/-- What a reservation takes. -/
theorem reserve_eq_ok (h : reserve msg gp = .ok gp') :
    msg.gasLimit ≤ gp ∧ gp' = gp - msg.gasLimit := by
  unfold reserve at h
  cases hs : subGas gp msg.gasLimit with
  | none => simp [hs] at h
  | some =>
    simp only [hs, Except.ok.injEq] at h
    obtain ⟨hle, hg⟩ := subGas_eq_some hs
    exact ⟨hle, h ▸ hg⟩

/-- A limit that fits is reserved. -/
theorem reserve_of_le (h : msg.gasLimit ≤ gp) : reserve msg gp = .ok (gp - msg.gasLimit) := by
  unfold reserve
  rw [subGas_of_le h]

/-- It fails with one error only. -/
theorem reserve_eq_error (h : reserve msg gp = .error err) : err = .gasLimitReached := by
  unfold reserve at h
  split at h
  · cases h
  · exact (Except.error.inj h).symm

/-- What a passed pre-check has done to the pool: nothing, for a system
transaction before Regolith, or the gas of the message has been taken out. -/
theorem preCheck_eq_ok (h : preCheck vm config ctx A msg gp = .ok gp') :
    (msg.isDepositTx = true ∧ config.isOptimismRegolith ctx.time = false ∧ gp' = gp) ∨
      (msg.gasLimit ≤ gp ∧ gp' = gp - msg.gasLimit) := by
  unfold preCheck at h
  split at h
  · next hd =>
    split at h
    · split at h
      · cases h
      · next hr => exact .inl ⟨hd, by simpa using hr, (Except.ok.inj h).symm⟩
    · exact .inr (reserve_eq_ok h)
  · split at h
    · cases h
    · exact .inr (reserve_eq_ok h)

/-- What is no system transaction and passes the pre-check has reserved its gas. -/
theorem preCheck_reserves (hsys : msg.isSystemTx = false)
    (h : preCheck vm config ctx A msg gp = .ok gp') :
    msg.gasLimit ≤ gp ∧ gp' = gp - msg.gasLimit := by
  unfold preCheck at h
  simp only [hsys, Bool.false_eq_true, if_false] at h
  split at h
  · exact reserve_eq_ok h
  · split at h
    · cases h
    · exact reserve_eq_ok h

/-- The pre-check passes on a fuller pool. -/
theorem preCheck_ok_of_le (h : preCheck vm config ctx A msg gp = .ok gp') (hle : gp ≤ gp₂) :
    preCheck vm config ctx A msg gp₂ = .ok (gp' + (gp₂ - gp)) := by
  have hres : ∀ {g : UInt64}, reserve msg gp = .ok g →
      reserve msg gp₂ = .ok (g + (gp₂ - gp)) := by
    intro g hg
    obtain ⟨hgas, rfl⟩ := reserve_eq_ok hg
    rw [reserve_of_le (UInt64.le_trans hgas hle)]
    congr 1
    grind
  unfold preCheck at h ⊢
  split at h
  · split at h
    · split at h
      · cases h
      · next hr =>
        obtain rfl := Except.ok.inj h
        simp_all only [if_true, if_false, Bool.false_eq_true]
        congr 1
        grind
    · next hd hs => simp_all
  · next hd =>
    split at h
    · cases h
    · next hc => simp_all

/-- Any other error of the pre-check is the same on every pool. -/
theorem preCheck_error (h : preCheck vm config ctx A msg gp = .error err)
    (hne : err ≠ .gasLimitReached) (gp₂ : UInt64) :
    preCheck vm config ctx A msg gp₂ = .error err := by
  have hres : reserve msg gp ≠ .error err := fun he => hne (reserve_eq_error he)
  unfold preCheck at h ⊢
  split at h
  · split at h
    · split at h
      · simp_all
      · cases h
    · exact absurd h hres
  · split at h
    · simp_all
    · exact absurd h hres

/-- Gas that was taken out fits back in. -/
theorem addGas_sub_of_le {back : UInt64} (h : amount ≤ gp) (hback : back ≤ amount) :
    addGas (gp - amount) back = some (gp - amount + back) := by
  unfold addGas
  rw [if_neg]
  intro hgt
  have hmax : (UInt64.ofNat (2 ^ 64 - 1) - back).toNat = 2 ^ 64 - 1 - back.toNat := by
    rw [UInt64.toNat_sub_of_le]
    · rfl
    · rw [UInt64.le_iff_toNat_le]
      exact Nat.le_pred_of_lt back.toNat_lt
  have hsub := UInt64.toNat_sub_of_le gp amount h
  have hlt := gp.toNat_lt
  rw [UInt64.le_iff_toNat_le] at h hback
  rw [gt_iff_lt, UInt64.lt_iff_toNat_lt, hmax, hsub] at hgt
  omega

/-- On a fuller pool a message has the same result, unless the pool was what it failed on. -/
theorem innerTransitionDb_of_le (hvm : GasSound vm)
    (h : innerTransitionDb vm config ctx A msg gp = some t)
    (hne : t.result ≠ .error .gasLimitReached) (hle : gp ≤ gp₂) :
    innerTransitionDb vm config ctx A msg gp₂ = some { t with gp := t.gp + (gp₂ - gp) } ∧
      t.gp ≤ gp := by
  unfold innerTransitionDb at h ⊢
  cases hpre : preCheck vm config ctx A msg gp with
  | error err =>
    simp only [hpre, Option.some.injEq] at h
    subst h
    have herr : err ≠ .gasLimitReached := fun he => hne (by rw [he])
    have hgp₂ : gp + (gp₂ - gp) = gp₂ := by grind
    rw [preCheck_error hpre herr gp₂, hgp₂]
    exact ⟨rfl, UInt64.le_refl gp⟩
  | ok gp₁ =>
    have hpre₂ := preCheck_ok_of_le hpre hle
    have hgp₁ : gp₁ ≤ gp := by
      rcases preCheck_eq_ok hpre with ⟨-, -, rfl⟩ | ⟨hgas, rfl⟩
      · exact UInt64.le_refl _
      · grind
    simp only [hpre, hpre₂] at h ⊢
    cases hcall : (vm.call ctx A msg).result with
    | error =>
      simp only [hcall, Option.some.injEq] at h ⊢
      subst h
      exact ⟨rfl, hgp₁⟩
    | ok r =>
      simp only [hcall] at h ⊢
      split at h
      · next hdep =>
        rw [if_pos hdep]
        simp only [Option.some.injEq] at h ⊢
        subst h
        exact ⟨rfl, hgp₁⟩
      · next hdep =>
        rw [if_neg hdep]
        -- past this point the gas of the message has been taken out of the pool
        rcases preCheck_eq_ok hpre with ⟨hd, hr, -⟩ | ⟨hgas, hgp⟩
        · simp [hd, hr] at hdep
        have hback := hvm ctx A msg r hcall
        have hgp₂ : gp₁ + (gp₂ - gp) = gp₂ - msg.gasLimit := by grind
        rw [hgp₂, addGas_sub_of_le (UInt64.le_trans hgas hle) hback]
        rw [hgp, addGas_sub_of_le hgas hback] at h
        simp only [Option.some.injEq] at h ⊢
        subst h
        refine ⟨?_, by grind⟩
        congr 1
        grind

/-- A failed deposit leaves the pool. -/
theorem includeFailedDeposit_gp (time : UInt64) (minted : Accounts) (t : Transition) :
    (includeFailedDeposit config time minted msg t).gp = t.gp := by
  unfold includeFailedDeposit
  split
  · rfl
  · split
    · rfl
    · rfl

/-- It does not read the pool either. -/
theorem includeFailedDeposit_withGas (time : UInt64) (minted : Accounts) (t : Transition)
    (gp : UInt64) :
    includeFailedDeposit config time minted msg { t with gp := gp } =
      { includeFailedDeposit config time minted msg t with gp := gp } := by
  rcases t with ⟨res, accounts, logs, g⟩
  unfold includeFailedDeposit
  cases res with
  | ok => rfl
  | error =>
    dsimp only
    split
    · rfl
    · rfl

/-- **A message that is included is included on a fuller pool as well**,
with the same result and the same effect, and leaves as much more in the pool. -/
theorem transitionDb_of_le (hvm : GasSound vm) (h : transitionDb vm config ctx A msg gp = some t)
    (hok : t.result = .ok r) (hle : gp ≤ gp₂) :
    transitionDb vm config ctx A msg gp₂ = some { t with gp := t.gp + (gp₂ - gp) } ∧
      t.gp ≤ gp := by
  have hinner : ∀ minted : Accounts,
      (innerTransitionDb vm config ctx minted msg gp).map
        (includeFailedDeposit config ctx.time minted msg) = some t →
      (innerTransitionDb vm config ctx minted msg gp₂).map
        (includeFailedDeposit config ctx.time minted msg) =
          some { t with gp := t.gp + (gp₂ - gp) } ∧ t.gp ≤ gp := by
    intro minted hmap
    obtain ⟨t₀, ht₀, rfl⟩ := Option.map_eq_some_iff.mp hmap
    have hne : t₀.result ≠ .error .gasLimitReached := by
      intro he
      unfold includeFailedDeposit at hok
      simp [he] at hok
    obtain ⟨ht₂, hgp⟩ := innerTransitionDb_of_le hvm ht₀ hne hle
    rw [ht₂, Option.map_some]
    rw [includeFailedDeposit_withGas, includeFailedDeposit_gp]
    exact ⟨rfl, hgp⟩
  unfold transitionDb at h ⊢
  cases hmint : msg.mint with
  | none =>
    simp only [hmint] at h ⊢
    exact hinner A h
  | some =>
    simp only [hmint] at h ⊢
    split at h
    · simp only [Option.some.injEq] at h
      subst h
      cases hok
    · next hmax =>
      rw [if_neg hmax]
      exact hinner _ h

/-- A message uses no more than its own gas. -/
theorem innerTransitionDb_usedGas_le (hvm : GasSound vm)
    (h : innerTransitionDb vm config ctx A msg gp = some t)
    (hok : (includeFailedDeposit config ctx.time A msg t).result = .ok r) :
    r.usedGas ≤ msg.gasLimit := by
  have hfailed : ∀ err, t.result = .error err → r.usedGas ≤ msg.gasLimit := by
    intro err herr
    unfold includeFailedDeposit at hok
    simp only [herr] at hok
    split at hok
    · cases hok
      dsimp only
      split
      · exact UInt64.zero_le
      · exact UInt64.le_refl _
    · rw [herr] at hok
      cases hok
  unfold innerTransitionDb at h
  split at h
  · obtain rfl := Option.some.inj h
    exact hfailed _ rfl
  · dsimp only at h
    split at h
    · obtain rfl := Option.some.inj h
      exact hfailed _ rfl
    · next vr hcall =>
      split at h
      · obtain rfl := Option.some.inj h
        cases hok
        dsimp only
        split
        · exact UInt64.zero_le
        · exact UInt64.le_refl _
      · split at h
        · cases h
        · obtain rfl := Option.some.inj h
          cases hok
          have hback := hvm ctx A msg vr hcall
          dsimp only
          rw [UInt64.le_iff_toNat_le, UInt64.toNat_sub_of_le _ _ hback]
          exact Nat.sub_le _ _

/-- A deposit that fails and is included has paid for all its gas, if the pool granted it. -/
theorem failedDeposit_charges (hsys : msg.isSystemTx = false)
    (hok : (includeFailedDeposit config ctx.time A msg t).result = .ok r)
    (herr : t.result = .error err) (hgas : msg.gasLimit ≤ gp) (hgp : t.gp = gp - msg.gasLimit) :
    t.gp.toNat + r.usedGas.toNat ≤ gp.toNat := by
  unfold includeFailedDeposit at hok
  simp only [herr] at hok
  split at hok
  · simp only [hsys, Bool.false_and, Bool.false_eq_true, if_false, Except.ok.injEq] at hok
    subst hok
    rw [hgp, UInt64.toNat_sub_of_le _ _ hgas]
    rw [UInt64.le_iff_toNat_le] at hgas
    dsimp only
    omega
  · rw [herr] at hok
    cases hok

/-- What a message that is no system transaction uses comes out of the pool. -/
theorem innerTransitionDb_charges (hvm : GasSound vm) (hsys : msg.isSystemTx = false)
    (h : innerTransitionDb vm config ctx A msg gp = some t)
    (hok : (includeFailedDeposit config ctx.time A msg t).result = .ok r) :
    t.gp.toNat + r.usedGas.toNat ≤ gp.toNat := by
  unfold innerTransitionDb at h
  cases hpre : preCheck vm config ctx A msg gp with
  | error =>
    simp only [hpre, Option.some.injEq] at h
    subst h
    -- the pre-check refuses deposits only for lack of gas, or if they are system transactions
    unfold includeFailedDeposit at hok
    dsimp only at hok
    split at hok
    · next hdep =>
      exfalso
      unfold preCheck at hpre
      simp only [hdep.2, if_true, hsys, Bool.false_eq_true, if_false] at hpre
      exact hdep.1 (reserve_eq_error hpre)
    · cases hok
  | ok =>
    obtain ⟨hgas, hgp₁⟩ := preCheck_reserves hsys hpre
    simp only [hpre] at h
    cases hcall : (vm.call ctx A msg).result with
    | error =>
      simp only [hcall, Option.some.injEq] at h
      subst h
      exact failedDeposit_charges hsys hok rfl hgas hgp₁
    | ok vr =>
      have hback := hvm ctx A msg vr hcall
      have hsub := UInt64.toNat_sub_of_le gp msg.gasLimit hgas
      have hused := UInt64.toNat_sub_of_le msg.gasLimit vr.gasRemaining hback
      rw [UInt64.le_iff_toNat_le] at hback
      simp only [hcall] at h
      split at h
      · simp only [hsys, Bool.false_eq_true, if_false, Option.some.injEq] at h
        subst h
        cases hok
        rw [UInt64.le_iff_toNat_le] at hgas
        dsimp only
        rw [hgp₁, hsub]
        omega
      · rw [hgp₁, addGas_sub_of_le hgas (UInt64.le_iff_toNat_le.mpr hback)] at h
        simp only [Option.some.injEq] at h
        subst h
        cases hok
        rw [UInt64.le_iff_toNat_le] at hgas
        have hlt := gp.toNat_lt
        dsimp only
        rw [UInt64.toNat_add, hsub, hused]
        omega

/-- A message that is included was so after its mint. -/
theorem exists_inner_of_transitionDb_ok (h : transitionDb vm config ctx A msg gp = some t)
    (hok : t.result = .ok r) :
    ∃ minted t₀, innerTransitionDb vm config ctx minted msg gp = some t₀ ∧
      t = includeFailedDeposit config ctx.time minted msg t₀ := by
  unfold transitionDb at h
  cases hmint : msg.mint with
  | none =>
    simp only [hmint] at h
    obtain ⟨t₀, ht₀, rfl⟩ := Option.map_eq_some_iff.mp h
    exact ⟨A, t₀, ht₀, rfl⟩
  | some =>
    simp only [hmint] at h
    split at h
    · obtain rfl := Option.some.inj h
      cases hok
    · obtain ⟨t₀, ht₀, rfl⟩ := Option.map_eq_some_iff.mp h
      exact ⟨_, t₀, ht₀, rfl⟩

/-- No message uses more than its limit. -/
theorem transitionDb_usedGas_le (hvm : GasSound vm)
    (h : transitionDb vm config ctx A msg gp = some t) (hok : t.result = .ok r) :
    r.usedGas ≤ msg.gasLimit := by
  obtain ⟨minted, t₀, ht₀, rfl⟩ := exists_inner_of_transitionDb_ok h hok
  exact innerTransitionDb_usedGas_le hvm ht₀ hok

/-- **What a message uses comes out of the pool**, unless it is a system transaction. -/
theorem transitionDb_charges (hvm : GasSound vm) (hsys : msg.isSystemTx = false)
    (h : transitionDb vm config ctx A msg gp = some t) (hok : t.result = .ok r) :
    t.gp.toNat + r.usedGas.toNat ≤ gp.toNat := by
  obtain ⟨minted, t₀, ht₀, rfl⟩ := exists_inner_of_transitionDb_ok h hok
  rw [includeFailedDeposit_gp]
  exact innerTransitionDb_charges hvm hsys ht₀ hok

end

/-- The example machine returns no gas. -/
theorem gasSound_plainVM : GasSound plainVM := by
  intro ctx A msg r h
  simp only [plainVM] at h
  split at h
  · cases h
  · next hlt =>
    obtain rfl := Except.ok.inj h
    grind

end BasedOp.Analysis.GasPool
