import BeaconSsz.Wire.Error
import Mathlib.Data.List.Forall2

/-!
# Results of checked computations

What it means that a computation made of checks, places and element-wise steps succeeds, and that
it cannot trap. The names of places matter for errors only, so they vanish from the statements
about success.
-/

namespace BeaconSsz

variable {ε δ α β : Type}

/-- Two steps succeed in sequence exactly when each one does. -/
@[simp] theorem bind_eq_ok {x : Except ε α} {f : α → Except ε β} {b : β} :
    (x >>= f) = .ok b ↔ ∃ a, x = .ok a ∧ f a = .ok b := by
  cases x <;> simp [bind, Except.bind]

/-- An optional answer is there exactly when the result is that answer. -/
theorem toOption_eq_some {x : Except ε α} {a : α} : x.toOption = some a ↔ x = .ok a := by
  cases x <;> simp [Except.toOption]

/-- An answer has a property exactly when there is one that has it. -/
theorem any_toOption {x : Except ε α} {p : α → Bool} :
    x.toOption.any p = true ↔ ∃ a, x = .ok a ∧ p a = true := by
  cases x <;> simp [Except.toOption]

/-- A check in front of a step has to pass. -/
theorem check_bind_eq_ok {x : Except ε Unit} {f : Unit → Except ε β} {b : β} :
    (x >>= f) = .ok b ↔ x = .ok () ∧ f () = .ok b := by
  cases x <;> simp [bind, Except.bind]

/-- Two steps in sequence fail where the first one fails, or the second one after it. -/
theorem bind_eq_error {x : Except ε α} {f : α → Except ε β} {e : ε} :
    (x >>= f) = .error e ↔ x = .error e ∨ ∃ a, x = .ok a ∧ f a = .error e := by
  cases x <;> simp [bind, Except.bind]

/-- The image of a result is an answer exactly when the result is one. -/
theorem map_eq_ok {x : Except ε α} {f : α → β} {b : β} :
    x.map f = .ok b ↔ ∃ a, x = .ok a ∧ f a = b := by
  cases x <;> simp [Except.map]

/-- The image of a result fails as the result does. -/
theorem map_eq_error {x : Except ε α} {f : α → β} {e : ε} : x.map f = .error e ↔ x = .error e := by
  cases x <;> simp [Except.map]

/-- A plain answer is the only one. -/
@[simp] theorem pure_eq_ok {a b : α} : (pure a : Except ε α) = .ok b ↔ a = b := by
  simp [pure, Except.pure]

/-- Another account of the error leaves successes alone. -/
@[simp] theorem mapError_eq_ok {x : Except ε α} {f : ε → δ} {a : α} :
    x.mapError f = .ok a ↔ x = .ok a := by
  cases x <;> simp [Except.mapError]

/-- Going through a list in order succeeds exactly when every step does, with the answers of the
steps in order. -/
theorem mapM_eq_ok {f : α → Except ε β} {xs : List α} {ys : List β} :
    xs.mapM f = .ok ys ↔ List.Forall₂ (fun x y => f x = .ok y) xs ys := by
  induction xs generalizing ys with
  | nil => rw [List.mapM_nil, pure_eq_ok, List.forall₂_nil_left_iff, eq_comm]
  | cons x xs ih =>
    simp only [List.mapM_cons, bind_eq_ok, pure_eq_ok, ih, List.forall₂_cons_left_iff]
    apply Iff.intro
    · intro h
      obtain ⟨y, hy, ys, hys, rfl⟩ := h
      exact ⟨y, ys, hy, hys, rfl⟩
    · intro h
      obtain ⟨y, ys, hy, hys, rfl⟩ := h
      exact ⟨y, hy, ys, hys, rfl⟩

/-- Going through a list in order fails only where a step does. -/
theorem exists_of_mapM_eq_error {f : α → Except ε β} {xs : List α} {e : ε}
    (h : xs.mapM f = .error e) : ∃ x ∈ xs, f x = .error e := by
  induction xs with
  | nil => cases h
  | cons x xs ih =>
    rw [List.mapM_cons, bind_eq_error] at h
    rcases h with h | ⟨y, -, h⟩
    · exact ⟨x, List.mem_cons_self, h⟩
    · rcases bind_eq_error.mp h with h | ⟨ys, -, h⟩
      · obtain ⟨x', hx', h⟩ := ih h
        exact ⟨x', List.mem_cons_of_mem x hx', h⟩
      · cases h

/-- Steps that give the images of other steps give the list of the images. -/
theorem mapM_eq_map {γ : Type} {f : α → Except ε β} {g : α → Except ε γ} {h : β → γ}
    (hg : ∀ x, g x = (f x).map h) (xs : List α) : xs.mapM g = (xs.mapM f).map (List.map h) := by
  induction xs with
  | nil => rfl
  | cons x xs ih =>
    rw [List.mapM_cons, List.mapM_cons, hg, ih]
    cases f x with
    | error error => rfl
    | ok y => cases xs.mapM f <;> rfl

/-- What a relation says of each right-hand element holds of all of them. -/
theorem forall_of_forall₂ {R : α → β → Prop} {P : β → Prop} (hP : ∀ x y, R x y → P y)
    {xs : List α} {ys : List β} (h : List.Forall₂ R xs ys) : ∀ y ∈ ys, P y := by
  induction h with
  | nil => simp
  | cons hxy _ ih => exact List.forall_mem_cons.mpr ⟨hP _ _ hxy, ih⟩

/-- Every element is related to something exactly when the list is related to a list. -/
theorem exists_forall₂ {R : α → β → Prop} {xs : List α} :
    (∃ ys, List.Forall₂ R xs ys) ↔ ∀ x ∈ xs, ∃ y, R x y := by
  induction xs with
  | nil => simp
  | cons x xs ih =>
    simp only [List.forall₂_cons_left_iff, List.forall_mem_cons, ← ih]
    exact ⟨fun ⟨_, y, ys, hy, hys, _⟩ => ⟨⟨y, hy⟩, ys, hys⟩,
      fun ⟨⟨y, hy⟩, ys, hys⟩ => ⟨y :: ys, y, ys, hy, hys, rfl⟩⟩

/-- Each right-hand element is related to a left-hand one. -/
theorem exists_of_forall₂ {R : α → β → Prop} {xs : List α} {ys : List β}
    (h : List.Forall₂ R xs ys) {y : β} (hy : y ∈ ys) : ∃ x ∈ xs, R x y := by
  induction h with
  | nil => cases hy
  | cons hxy _ ih =>
    cases hy with
    | head => exact ⟨_, List.mem_cons_self, hxy⟩
    | tail _ hy =>
      obtain ⟨x, hx, hxy⟩ := ih hy
      exact ⟨x, List.mem_cons_of_mem _ hx, hxy⟩

/-- Steps that are the same on the elements at each place go through the two lists in the same
way. -/
theorem mapM_eq_of_forall₂ {γ : Type} {f : α → Except ε γ} {g : β → Except ε γ} {xs : List α}
    {ys : List β} (h : List.Forall₂ (fun x y => f x = g y) xs ys) : xs.mapM f = ys.mapM g := by
  induction h with
  | nil => rfl
  | cons hxy _ ih => rw [List.mapM_cons, List.mapM_cons, hxy, ih]

/-- Steps that are the same on every element go through the list in the same way. -/
theorem mapM_congr {f g : α → Except ε β} {xs : List α} (h : ∀ x ∈ xs, f x = g x) :
    xs.mapM f = xs.mapM g :=
  mapM_eq_of_forall₂ (List.forall₂_same.mpr h)

/-- Checks that are the same on the elements at each place go through the two lists in the same
way. -/
theorem forM_eq_of_forall₂ {f : α → Except ε Unit} {g : β → Except ε Unit} {xs : List α}
    {ys : List β} (h : List.Forall₂ (fun x y => f x = g y) xs ys) : xs.forM f = ys.forM g := by
  induction h with
  | nil => rfl
  | cons hxy _ ih =>
    rw [List.forM_eq_forM, List.forM_eq_forM] at ih ⊢
    rw [List.forM_cons, List.forM_cons, hxy, ih]

/-- Numbering two lists from the same number gives related elements the same numbers. -/
theorem forall₂_zipIdx {R : α → β → Prop} {xs : List α} {ys : List β} (h : List.Forall₂ R xs ys)
    (start : Nat) :
    List.Forall₂ (fun x y => R x.1 y.1 ∧ x.2 = y.2) (xs.zipIdx start) (ys.zipIdx start) := by
  induction h generalizing start with
  | nil => exact .nil
  | cons hxy _ ih => exact .cons ⟨hxy, rfl⟩ (ih (start + 1))

/-- Numbering the elements changes nothing about success, if a step succeeds under every number
alike. -/
theorem mapM_zipIdx_eq_ok {f : α → Except ε β} {g : α × Nat → Except ε β} {xs : List α}
    {ys : List β} (hg : ∀ x y, g x = .ok y ↔ f x.1 = .ok y) (start : Nat) :
    (xs.zipIdx start).mapM g = .ok ys ↔ List.Forall₂ (fun x y => f x = .ok y) xs ys := by
  rw [mapM_eq_ok, ← List.zipIdx_map_fst start xs, List.forall₂_map_left_iff,
    List.zipIdx_map_fst]
  simp only [hg]

/-- A check on every element passes exactly when it does on each one. -/
theorem forM_eq_ok {f : α → Except ε Unit} {xs : List α} :
    xs.forM f = .ok () ↔ ∀ x ∈ xs, f x = .ok () := by
  induction xs with
  | nil => simp
  | cons x xs ih =>
    rw [List.forM_eq_forM] at ih ⊢
    rw [List.forM_cons, check_bind_eq_ok, ih, List.forall_mem_cons]

/-- A check on every element fails as it does on the first element that does not pass. -/
theorem exists_of_forM_eq_error {f : α → Except ε Unit} {xs : List α} {e : ε}
    (h : xs.forM f = .error e) :
    ∃ (position : Nat) (x : α), xs[position]? = some x ∧ f x = .error e ∧
      ∀ earlier < position, ∀ y, xs[earlier]? = some y → f y = .ok () := by
  induction xs with
  | nil => cases h
  | cons x xs ih =>
    rw [List.forM_eq_forM] at h ih
    rw [List.forM_cons, bind_eq_error] at h
    rcases h with h | ⟨_, hx, h⟩
    · exact ⟨0, x, rfl, h, fun _ hearlier => absurd hearlier (Nat.not_lt_zero _)⟩
    · obtain ⟨position, x', hx', h, hbefore⟩ := ih h
      refine ⟨position + 1, x', hx', h, fun earlier hearlier y hy => ?_⟩
      cases earlier with
      | zero => exact Option.some.inj hy ▸ hx
      | succ earlier => exact hbefore earlier (Nat.lt_of_succ_lt_succ hearlier) y hy

namespace Word

/-- A sum is given exactly when it is a word. -/
@[simp] theorem add_eq_ok {a b c : Nat} : add a b = .ok c ↔ a + b < wordLimit ∧ a + b = c := by
  unfold add
  split <;> simp <;> omega

/-- A product is given exactly when it is a word. -/
@[simp] theorem mul_eq_ok {a b c : Nat} : mul a b = .ok c ↔ a * b < wordLimit ∧ a * b = c := by
  unfold mul
  split <;> simp <;> omega

/-- A sum is given exactly when it is a word. -/
@[simp] theorem add?_eq_some {a b c : Nat} :
    add? a b = some c ↔ a + b < wordLimit ∧ a + b = c := by
  simp [add?]

/-- A product is given exactly when it is a word. -/
@[simp] theorem mul?_eq_some {a b c : Nat} :
    mul? a b = some c ↔ a * b < wordLimit ∧ a * b = c := by
  simp [mul?]

/-- A product that is a word is not cut off. -/
theorem saturatingMul_eq {a b : Nat} (h : a * b < wordLimit) : saturatingMul a b = a * b :=
  Nat.min_eq_left (Nat.le_sub_one_of_lt h)

end Word

/-- A length is a word. -/
theorem toNat_lt_wordLimit (n : UInt64) : n.toNat < wordLimit :=
  n.toNat_lt

namespace Encoding

/-- A refusal is no answer. -/
@[simp] theorem fail_ne_ok {cause : EncodeCause} {a : α} :
    (fail cause : Encoding α) = .ok a ↔ False := by
  simp [fail]

/-- The place of an error does not matter for success. -/
@[simp] theorem within_eq_ok {step : Step} {result : Encoding α} {a : α} :
    within step result = .ok a ↔ result = .ok a :=
  mapError_eq_ok

/-- An error seen from further out has the step in front of its place. -/
theorem within_eq_error {step : Step} {result : Encoding α} {error : EncodeError} :
    within step result = .error error ↔
      ∃ inner, result = .error inner ∧ inner.within step = error := by
  cases result <;> simp [within, Except.mapError]

/-- A function succeeds on all elements exactly when it does on each one. -/
theorem mapElements_eq_ok {f : α → Encoding β} {xs : List α} {ys : List β} :
    mapElements f xs = .ok ys ↔ List.Forall₂ (fun x y => f x = .ok y) xs ys :=
  mapM_zipIdx_eq_ok (fun _ _ => within_eq_ok) 0

/-- A check passes on all elements exactly when it does on each one. -/
theorem forElements_eq_ok {f : α → Encoding Unit} {xs : List α} :
    forElements f xs = .ok () ↔ ∀ x ∈ xs, f x = .ok () := by
  rw [forElements, forM_eq_ok, ← List.zipIdx_map_fst 0 xs, List.forall_mem_map,
    List.zipIdx_map_fst]
  simp only [within_eq_ok]

/-- Functions that are the same on the elements at each place are so on the two lists. -/
theorem mapElements_eq_of_forall₂ {γ : Type} {f : α → Encoding γ} {g : β → Encoding γ}
    {xs : List α} {ys : List β} (h : List.Forall₂ (fun x y => f x = g y) xs ys) :
    mapElements f xs = mapElements g ys := by
  refine mapM_eq_of_forall₂ ((forall₂_zipIdx h 0).imp fun _ _ hxy => ?_)
  exact congrArg₂ (fun position result => within (.index position) result) hxy.2 hxy.1

/-- Functions that are the same on every element are so on the list. -/
theorem mapElements_congr {γ : Type} {f g : α → Encoding γ} {xs : List α}
    (h : ∀ x ∈ xs, f x = g x) : mapElements f xs = mapElements g xs :=
  mapElements_eq_of_forall₂ (List.forall₂_same.mpr h)

/-- Checks that are the same on the elements at each place are so on the two lists. -/
theorem forElements_eq_of_forall₂ {f : α → Encoding Unit} {g : β → Encoding Unit} {xs : List α}
    {ys : List β} (h : List.Forall₂ (fun x y => f x = g y) xs ys) :
    forElements f xs = forElements g ys := by
  refine forM_eq_of_forall₂ ((forall₂_zipIdx h 0).imp fun _ _ hxy => ?_)
  exact congrArg₂ (fun position result => within (.index position) result) hxy.2 hxy.1

end Encoding

namespace Decoding

/-- A refusal is no answer. -/
@[simp] theorem fail_ne_ok {cause : DecodeCause} {a : α} :
    (fail cause : Decoding α) = .ok a ↔ False := by
  simp [fail, Stop.refuse]

/-- The place of an error does not matter for success. -/
@[simp] theorem within_eq_ok {step : Step} {result : Decoding α} {a : α} :
    within step result = .ok a ↔ result = .ok a :=
  mapError_eq_ok

/-- A function succeeds on all elements exactly when it does on each one. -/
theorem mapElements_eq_ok {f : α → Decoding β} {xs : List α} {ys : List β} :
    mapElements f xs = .ok ys ↔ List.Forall₂ (fun x y => f x = .ok y) xs ys :=
  mapM_zipIdx_eq_ok (fun _ _ => within_eq_ok) 0

end Decoding

namespace Stop

/-- A computation that only traps answers as before when it may also refuse. -/
@[simp] theorem orTrap_eq_ok {result : Except Trap α} {a : α} :
    (orTrap result : Except (Stop ε) α) = .ok a ↔ result = .ok a :=
  mapError_eq_ok

/-- The computation ends with an answer or a refusal. -/
def TrapFree (result : Except (Stop ε) α) : Prop :=
  ∀ trap, result ≠ .error (.trapped trap)

/-- What has no trap ends with an answer or a refusal. -/
theorem TrapFree.ok_or_refused {result : Except (Stop ε) α} (h : TrapFree result) :
    (∃ a, result = .ok a) ∨ ∃ error, result = .error (.refused error) := by
  cases result with
  | ok a => exact .inl ⟨a, rfl⟩
  | error stop =>
    cases stop with
    | refused error => exact .inr ⟨error, rfl⟩
    | trapped trap => exact absurd rfl (h trap)

/-- An answer is no trap. -/
@[simp] theorem trapFree_ok {a : α} : TrapFree (.ok a : Except (Stop ε) α) := by
  simp [TrapFree]

/-- An answer is no trap. -/
@[simp] theorem trapFree_pure {a : α} : TrapFree (pure a : Except (Stop ε) α) :=
  trapFree_ok

/-- A refusal is no trap. -/
@[simp] theorem trapFree_refuse {error : ε} : TrapFree (refuse error : Except (Stop ε) α) := by
  simp [TrapFree, refuse]

/-- A computation that may only trap is free of traps if it has an answer. -/
theorem trapFree_orTrap {result : Except Trap α} {a : α} (h : result = .ok a) :
    TrapFree (orTrap result : Except (Stop ε) α) := by
  rw [h]
  exact trapFree_ok

/-- A sum that is a word is no trap. -/
theorem trapFree_add {a b : Nat} (h : a + b < wordLimit) :
    TrapFree (orTrap (Word.add a b) : Except (Stop ε) Nat) :=
  trapFree_orTrap (Word.add_eq_ok.mpr ⟨h, rfl⟩)

/-- A product that is a word is no trap. -/
theorem trapFree_mul {a b : Nat} (h : a * b < wordLimit) :
    TrapFree (orTrap (Word.mul a b) : Except (Stop ε) Nat) :=
  trapFree_orTrap (Word.mul_eq_ok.mpr ⟨h, rfl⟩)

/-- The first of two steps has no trap, and the second has none after any answer of the first. -/
theorem TrapFree.bind {x : Except (Stop ε) α} {f : α → Except (Stop ε) β} (hx : TrapFree x)
    (hf : ∀ a, x = .ok a → TrapFree (f a)) : TrapFree (x >>= f) := by
  cases x with
  | error stop =>
    intro trap h
    exact hx trap (by simpa [Bind.bind, Except.bind] using h)
  | ok a => exact hf a rfl

/-- The place of an error does not matter for traps. -/
theorem TrapFree.within {step : Step} {result : Decoding α} (h : TrapFree result) :
    TrapFree (Decoding.within step result) := by
  intro trap
  cases result with
  | ok a => simp [Decoding.within, Except.mapError]
  | error stop =>
    cases stop with
    | refused error => simp [Decoding.within, Except.mapError, mapError]
    | trapped trap => exact absurd rfl (h trap)

/-- Refusing bytes is no trap. -/
@[simp] theorem trapFree_fail {cause : DecodeCause} :
    TrapFree (Decoding.fail cause : Decoding α) :=
  trapFree_refuse

/-- Going through a list in order has no trap if no step has one. -/
theorem TrapFree.mapM {f : α → Except (Stop ε) β} {xs : List α}
    (h : ∀ x ∈ xs, TrapFree (f x)) : TrapFree (xs.mapM f) := by
  induction xs with
  | nil => exact trapFree_pure
  | cons x xs ih =>
    rw [List.forall_mem_cons] at h
    rw [List.mapM_cons]
    exact h.1.bind fun _ _ => (ih h.2).bind fun _ _ => trapFree_pure

/-- A function without traps on every element has none on all of them. -/
theorem TrapFree.mapElements {f : α → Decoding β} {xs : List α}
    (h : ∀ x ∈ xs, TrapFree (f x)) : TrapFree (Decoding.mapElements f xs) :=
  TrapFree.mapM fun _ hpair => (h _ (List.fst_mem_of_mem_zipIdx hpair)).within

end Stop

end BeaconSsz
