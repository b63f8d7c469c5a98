/-!
# Outcomes

When a computation that may fail is made of parts, what is known of their outcomes is known of its
own.

* `map_eq_ok`, `map_eq_error`, `bind_eq_ok`: an outcome made of others, by what it is;
* `exists_mapM_eq_ok`, `mem_of_mapM_eq_ok`: results for all elements of a list;
* `Ends`: what is known of an outcome, be it an error or a result;
* `Agree`: what is known of two outcomes together.
-/

namespace XPath

variable {ε α β : Type}

/-- Outcomes are compared by what they hold. -/
instance decidableEqOutcome [DecidableEq ε] [DecidableEq α] : DecidableEq (Except ε α)
  | .error e, .error e' => decidable_of_iff (e = e') (by simp)
  | .ok a, .ok a' => decidable_of_iff (a = a') (by simp)
  | .error _, .ok _ => .isFalse (by simp)
  | .ok _, .error _ => .isFalse (by simp)

theorem map_eq_ok {f : α → β} {x : Except ε α} {b : β} :
    x.map f = .ok b ↔ ∃ a, x = .ok a ∧ f a = b := by
  cases x with
  | error e => simp [Except.map]
  | ok a => simp [Except.map]

theorem map_eq_error {f : α → β} {x : Except ε α} {e : ε} :
    x.map f = .error e ↔ x = .error e := by
  cases x with
  | error e' => simp [Except.map]
  | ok a => simp [Except.map]

theorem bind_eq_ok {f : α → Except ε β} {x : Except ε α} {b : β} :
    x >>= f = .ok b ↔ ∃ a, x = .ok a ∧ f a = .ok b := by
  cases x with
  | error e => simp [bind, Except.bind]
  | ok a => simp [bind, Except.bind]

theorem exists_eq_ok_of_isOk {x : Except ε α} (h : x.isOk) : ∃ a, x = .ok a := by
  cases x with
  | error e => simp [Except.isOk, Except.toBool] at h
  | ok a => exact ⟨a, rfl⟩

/-! ### One computation for each element of a list -/

section Lists

variable {f : α → Except ε β} {as : List α}

theorem mapM_cons_eq_ok {a : α} {bs : List β} :
    (a :: as).mapM f = .ok bs ↔ ∃ b cs, f a = .ok b ∧ as.mapM f = .ok cs ∧ b :: cs = bs := by
  rw [List.mapM_cons, bind_eq_ok]
  simp only [bind_eq_ok, pure, Except.pure, Except.ok.injEq, exists_and_left]

/-- There are results for a list exactly if there is one for each element. -/
theorem exists_mapM_eq_ok :
    (∃ bs, as.mapM f = .ok bs) ↔ ∀ a ∈ as, ∃ b, f a = .ok b := by
  induction as with
  | nil => exact ⟨by simp, fun _ => ⟨[], rfl⟩⟩
  | cons a as ih =>
    rw [List.forall_mem_cons, ← ih]
    constructor
    · rintro ⟨bs, h⟩
      obtain ⟨b, cs, hb, hcs, -⟩ := mapM_cons_eq_ok.1 h
      exact ⟨⟨b, hb⟩, ⟨cs, hcs⟩⟩
    · rintro ⟨⟨b, hb⟩, ⟨cs, hcs⟩⟩
      exact ⟨b :: cs, mapM_cons_eq_ok.2 ⟨b, cs, hb, hcs, rfl⟩⟩

/-- The results for a list are the results for its elements. -/
theorem mem_of_mapM_eq_ok {bs : List β} (h : as.mapM f = .ok bs) (b : β) :
    b ∈ bs ↔ ∃ a ∈ as, f a = .ok b := by
  induction as generalizing bs with
  | nil =>
    cases h
    simp
  | cons a as ih =>
    obtain ⟨c, cs, hc, hcs, rfl⟩ := mapM_cons_eq_ok.1 h
    simp only [List.mem_cons, exists_eq_or_imp, ih hcs, hc, Except.ok.injEq, @eq_comm _ b]

end Lists

/-! ### What is known of an outcome -/

/-- The outcome is an error that satisfies `E` or a result that satisfies `P`. -/
def Ends (E : ε → Prop) (P : α → Prop) : Except ε α → Prop
  | .error e => E e
  | .ok a => P a

namespace Ends

variable {E : ε → Prop} {P : α → Prop} {Q : β → Prop} {x : Except ε α}

@[simp] theorem pure_iff {a : α} : Ends E P (pure a) ↔ P a := Iff.rfl

/-- Where nothing is demanded of it, an outcome may be any. -/
theorem always : Ends (fun _ => True) (fun _ => True) x := by
  cases x with
  | error e => trivial
  | ok a => trivial

/-- A step whose results meet the demands of the next leads to the outcomes of the next. -/
theorem bind {f : α → Except ε β} (h : Ends E P x) (hf : ∀ a, P a → Ends E Q (f a)) :
    Ends E Q (x >>= f) := by
  cases x with
  | error e => exact h
  | ok a => exact hf a h

theorem mono {E' : ε → Prop} {P' : α → Prop} (h : Ends E P x) (hE : ∀ e, E e → E' e)
    (hP : ∀ a, P a → P' a) : Ends E' P' x := by
  cases x with
  | error e => exact hE e h
  | ok a => exact hP a h

/-- One computation for each element of a list. -/
theorem mapM {f : α → Except ε β} (as : List α) (h : ∀ a ∈ as, Ends E Q (f a)) :
    Ends E (fun bs => bs.length = as.length ∧ ∀ b ∈ bs, Q b) (as.mapM f) := by
  induction as with
  | nil => exact ⟨rfl, by simp⟩
  | cons a as ih =>
    have hrest := ih fun b hb => h b (List.mem_cons_of_mem a hb)
    rw [List.mapM_cons]
    refine (h a List.mem_cons_self).bind ?_
    intro b hb
    refine hrest.bind ?_
    rintro bs ⟨hlength, hbs⟩
    refine pure_iff.2 ⟨by rw [List.length_cons, List.length_cons, hlength], ?_⟩
    intro c hc
    rcases List.mem_cons.1 hc with rfl | hc
    · exact hb
    · exact hbs c hc

end Ends

/-! ### What is known of two outcomes -/

/-- The outcomes are the same error or results that are related, or else the first of them is an
error that satisfies `E`. -/
inductive Agree (E : ε → Prop) (R : α → β → Prop) : Except ε α → Except ε β → Prop
  | excused {e} (h : E e) (y : Except ε β) : Agree E R (.error e) y
  | error (e : ε) : Agree E R (.error e) (.error e)
  | ok {a b} (h : R a b) : Agree E R (.ok a) (.ok b)

namespace Agree

variable {E : ε → Prop} {R : α → β → Prop} {x : Except ε α} {y : Except ε β}

theorem refl (x : Except ε α) : Agree E (· = ·) x x := by
  cases x with
  | error e => exact .error e
  | ok a => exact .ok rfl

/-- Steps that agree on related results lead to outcomes that agree. -/
theorem bind {γ δ : Type} {S : γ → δ → Prop} {f : α → Except ε γ} {g : β → Except ε δ}
    (h : Agree E R x y) (hf : ∀ a b, R a b → Agree E S (f a) (g b)) :
    Agree E S (x >>= f) (y >>= g) := by
  cases h with
  | excused he y => exact .excused he _
  | error e => exact .error e
  | ok hab => exact hf _ _ hab

theorem mono {R' : α → β → Prop} (h : Agree E R x y) (hR : ∀ a b, R a b → R' a b) :
    Agree E R' x y := by
  cases h with
  | excused he y => exact .excused he y
  | error e => exact .error e
  | ok hab => exact .ok (hR _ _ hab)

/-- Outcomes with equal results are equal, or the first of them is excused. -/
theorem eq_or_excused {x y : Except ε α} (h : Agree E (· = ·) x y) :
    x = y ∨ ∃ e, E e ∧ x = .error e := by
  cases h with
  | excused he y => exact .inr ⟨_, he, rfl⟩
  | error e => exact .inl rfl
  | ok hab => exact .inl (congrArg _ hab)

/-- Without excuses, both outcomes are errors or both are results. -/
theorem error_or_ok (h : Agree (fun _ => False) R x y) :
    (∃ e, x = .error e ∧ y = .error e) ∨ ∃ a b, x = .ok a ∧ y = .ok b ∧ R a b := by
  cases h with
  | excused he y => exact he.elim
  | error e => exact .inl ⟨e, rfl, rfl⟩
  | ok hab => exact .inr ⟨_, _, rfl, rfl, hab⟩

/-- Without excuses, outcomes with equal results are equal. -/
theorem eq {x y : Except ε α} (h : Agree (fun _ => False) (· = ·) x y) : x = y :=
  h.eq_or_excused.resolve_right fun ⟨_, he, _⟩ => he

/-- At the border of two kinds of errors. -/
theorem mapError {ε' : Type} {E' : ε' → Prop} (f : ε → ε') (h : Agree (fun _ => False) R x y) :
    Agree E' R (x.mapError f) (y.mapError f) := by
  cases h with
  | excused he y => exact he.elim
  | error e => exact .error (f e)
  | ok hab => exact .ok hab

/-- One computation for each element of a list. -/
theorem mapM {γ : Type} {f g : α → Except ε γ} (as : List α)
    (h : ∀ a ∈ as, Agree E (· = ·) (f a) (g a)) : Agree E (· = ·) (as.mapM f) (as.mapM g) := by
  induction as with
  | nil => exact .ok rfl
  | cons a as ih =>
    have hrest := ih fun b hb => h b (List.mem_cons_of_mem a hb)
    rw [List.mapM_cons, List.mapM_cons]
    refine (h a List.mem_cons_self).bind ?_
    rintro c _ rfl
    refine hrest.bind ?_
    rintro cs _ rfl
    exact .ok rfl

end Agree

end XPath
