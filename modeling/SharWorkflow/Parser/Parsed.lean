import SharWorkflow.Model.Errors

/-!
# How a function of the parser ends

The parser's functions return a result or an error, panic on a nil pointer, or call themselves
without end. `Parsed` has the four cases; a recursion takes **fuel**, and one that has run out of
it is `unfinished`, so that a result with any fuel is the result of the code.
-/

namespace SharWorkflow

open List

/-- How a call ends: with a result, with an error, by a panic, or not within its fuel. -/
inductive Parsed (α : Type) where
  | done (a : α)
  | failed (e : Err)
  | panics
  | unfinished

namespace Parsed

variable {α β γ : Type}

/-- The call goes on with the result. -/
def bind (x : Parsed α) (f : α → Parsed β) : Parsed β :=
  match x with
  | done a => f a
  | failed e => failed e
  | panics => panics
  | unfinished => unfinished

instance : Monad Parsed where
  pure := done
  bind := bind

instance : LawfulMonad Parsed :=
  LawfulMonad.mk' Parsed
    (fun x => by cases x <;> rfl)
    (fun _ _ => rfl)
    (fun x _ _ => by cases x <;> rfl)

/-- The value behind a pointer; a nil pointer panics. -/
def deref : Option α → Parsed α
  | some a => done a
  | none => panics

/-- `fmt.Errorf` with `%w`: the error, if there is one, with a text before it. -/
def wrapErr (text : String) : Parsed α → Parsed α
  | failed e => failed (.wrap text e)
  | other => other

@[simp]
theorem pure_eq (a : α) : (pure a : Parsed α) = done a := rfl

@[simp]
theorem done_bind (a : α) (f : α → Parsed β) : done a >>= f = f a := rfl

@[simp]
theorem panics_bind (f : α → Parsed β) : panics >>= f = panics := rfl

@[simp]
theorem deref_some (a : α) : deref (some a) = done a := rfl

@[simp]
theorem deref_none : deref (none : Option α) = panics := rfl

variable {x : Parsed α}

theorem bind_eq_done {f : α → Parsed β} {b : β} :
    x >>= f = done b ↔ ∃ a, x = done a ∧ f a = done b := by
  change x.bind f = done b ↔ _
  cases x <;> simp [bind]

@[simp]
theorem deref_eq_done {x : Option α} {a : α} : deref x = done a ↔ x = some a := by
  cases x <;> simp [deref]

@[simp]
theorem wrapErr_eq_done {text : String} {a : α} :
    x.wrapErr text = done a ↔ x = done a := by
  cases x <;> simp [wrapErr]

/-! ### Loops -/

variable {f : β → α → Parsed β} {xs : List α}

/-- A loop whose every round ends with a result, and keeps what the rounds need, does so itself. -/
theorem exists_foldlM_inv (P : β → Prop) (h : ∀ x ∈ xs, ∀ b, P b → ∃ b', f b x = done b' ∧ P b')
    {b : β} (hb : P b) :
    ∃ b', xs.foldlM f b = done b' ∧ P b' := by
  induction xs generalizing b with
  | nil => exact ⟨b, rfl, hb⟩
  | cons x xs ih =>
    obtain ⟨c, hc, hPc⟩ := h x mem_cons_self b hb
    rw [foldlM_cons, hc, done_bind]
    exact ih (fun y hy => h y (mem_cons_of_mem _ hy)) hPc

/-- A loop whose every round ends with a result does so itself. -/
theorem exists_foldlM (h : ∀ x ∈ xs, ∀ b, ∃ b', f b x = done b') (b : β) :
    ∃ b', xs.foldlM f b = done b' := by
  obtain ⟨b', hb', -⟩ := exists_foldlM_inv (fun _ => True) (b := b)
    (fun x hx b _ => (h x hx b).imp fun _ hb' => ⟨hb', trivial⟩) trivial
  exact ⟨b', hb'⟩

variable {b b' : β}

/-- A loop comes to the same result with rounds that do. -/
theorem foldlM_mono {f g : β → α → Parsed β}
    (h : ∀ x ∈ xs, ∀ b b', f b x = done b' → g b x = done b') (hf : xs.foldlM f b = done b') :
    xs.foldlM g b = done b' := by
  induction xs generalizing b with
  | nil => exact hf
  | cons x xs ih =>
    rw [foldlM_cons, bind_eq_done] at hf ⊢
    obtain ⟨c, hc, hrest⟩ := hf
    exact ⟨c, h x mem_cons_self b c hc, ih (fun y hy => h y (mem_cons_of_mem _ hy)) hrest⟩

/-- A loop that ends keeps what each of its rounds keeps. -/
theorem foldlM_inv (P : β → Prop) (h : ∀ x ∈ xs, ∀ b b', P b → f b x = done b' → P b') (hb : P b)
    (hf : xs.foldlM f b = done b') : P b' := by
  induction xs generalizing b with
  | nil =>
    obtain rfl : b = b' := by simpa using hf
    exact hb
  | cons x xs ih =>
    rw [foldlM_cons, bind_eq_done] at hf
    obtain ⟨c, hc, hrest⟩ := hf
    exact ih (fun y hy => h y (mem_cons_of_mem _ hy)) (h x mem_cons_self b c hb hc) hrest

/-- A loop over the first numbers keeps what the round of each number leads on. -/
theorem foldlM_range_inv {f : β → Nat → Parsed β} {n : Nat} (P : Nat → β → Prop)
    (h : ∀ k < n, ∀ b b', P k b → f b k = done b' → P (k + 1) b') (hb : P 0 b)
    (hf : (List.range n).foldlM f b = done b') : P n b' := by
  induction n generalizing b' with
  | zero =>
    obtain rfl : b = b' := by simpa using hf
    exact hb
  | succ n ih =>
    rw [range_succ, foldlM_append, bind_eq_done] at hf
    obtain ⟨c, hc, hlast⟩ := hf
    rw [foldlM_cons, bind_eq_done] at hlast
    obtain ⟨c', hc', hnil⟩ := hlast
    obtain rfl : c' = b' := by simpa using hnil
    exact h n (Nat.lt_succ_self n) c c' (ih (fun k hk => h k (Nat.lt_succ_of_lt hk)) hc) hc'

/-- Every round of a loop that ends has ended, in a state that the rounds before it have kept. -/
theorem foldlM_each_inv (P : β → Prop) (h : ∀ x ∈ xs, ∀ b b', P b → f b x = done b' → P b')
    (hb : P b) (hf : xs.foldlM f b = done b') {x : α} (hx : x ∈ xs) :
    ∃ c c', P c ∧ f c x = done c' := by
  induction xs generalizing b with
  | nil => simp at hx
  | cons y xs ih =>
    rw [foldlM_cons, bind_eq_done] at hf
    obtain ⟨c, hc, hrest⟩ := hf
    rcases mem_cons.1 hx with rfl | hx
    · exact ⟨b, c, hb, hc⟩
    · exact ih (fun z hz => h z (mem_cons_of_mem _ hz)) (h y mem_cons_self b c hb hc)
        hrest hx

/-- Every round of a loop that ends has ended. -/
theorem foldlM_each (hf : xs.foldlM f b = done b') {x : α} (hx : x ∈ xs) :
    ∃ c c', f c x = done c' := by
  obtain ⟨c, c', -, hc'⟩ := foldlM_each_inv (fun _ => True) (fun _ _ _ _ _ _ => trivial) trivial
    hf hx
  exact ⟨c, c', hc'⟩

/-- A loop that ends where its rounds cannot lead to from elsewhere has been there all along. -/
theorem foldlM_back {b₀ : β} (h : ∀ x ∈ xs, ∀ b, f b x = done b₀ → b = b₀) {b : β}
    (hf : xs.foldlM f b = done b₀) :
    b = b₀ ∧ ∀ x ∈ xs, f b₀ x = done b₀ := by
  induction xs generalizing b with
  | nil => exact ⟨by simpa using hf, forall_mem_nil _⟩
  | cons x xs ih =>
    rw [foldlM_cons, bind_eq_done] at hf
    obtain ⟨c, hc, hrest⟩ := hf
    obtain ⟨rfl, hall⟩ := ih (fun y hy => h y (mem_cons_of_mem _ hy)) hrest
    obtain rfl := h x mem_cons_self b hc
    exact ⟨rfl, forall_mem_cons.2 ⟨hc, hall⟩⟩

/-- Every round of a loop without a result that ends has ended. -/
theorem forM_each {f : α → Parsed Unit} (hf : xs.forM f = done ()) {x : α} (hx : x ∈ xs) :
    f x = done () := by
  induction xs with
  | nil => simp at hx
  | cons y xs ih =>
    have hcons : (f y >>= fun _ => xs.forM f) = done () := hf
    obtain ⟨_, hy, hrest⟩ := bind_eq_done.1 hcons
    rcases mem_cons.1 hx with rfl | hx
    · exact hy
    · exact ih hrest hx

/-- A loop whose rounds each add something to a list adds all of it. -/
theorem mem_foldlM {f : List β → α → Parsed (List β)} (adds : α → β → Prop)
    (h : ∀ x ∈ xs, ∀ b b', f b x = done b' → ∀ y, y ∈ b' ↔ y ∈ b ∨ adds x y) {b b' : List β}
    (hf : xs.foldlM f b = done b') (y : β) : y ∈ b' ↔ y ∈ b ∨ ∃ x ∈ xs, adds x y := by
  induction xs generalizing b with
  | nil =>
    obtain rfl : b = b' := by simpa using hf
    simp
  | cons x xs ih =>
    rw [foldlM_cons, bind_eq_done] at hf
    obtain ⟨c, hc, hrest⟩ := hf
    rw [ih (fun z hz => h z (mem_cons_of_mem _ hz)) hrest, h x mem_cons_self b c hc]
    simp only [exists_mem_cons_iff, or_assoc]

/-- A loop whose rounds end with a result, or not at all, does so itself. -/
theorem foldlM_done_or_unfinished (h : ∀ x ∈ xs, ∀ b, (∃ b', f b x = done b') ∨ f b x = unfinished)
    (b : β) :
    (∃ b', xs.foldlM f b = done b') ∨ xs.foldlM f b = unfinished := by
  induction xs generalizing b with
  | nil => exact .inl ⟨b, rfl⟩
  | cons x xs ih =>
    rw [foldlM_cons]
    rcases h x mem_cons_self b with ⟨b', hb'⟩ | hnot
    · rw [hb', done_bind]
      exact ih (fun y hy => h y (mem_cons_of_mem _ hy)) b'
    · rw [hnot]
      exact .inr rfl

/-- The call returns, with a result or with an error, or panics where it may. -/
def Returns (calm : Prop) : Parsed α → Prop
  | done _ => True
  | failed _ => True
  | panics => ¬calm
  | unfinished => False

variable {calm : Prop}

theorem Returns.bind {f : α → Parsed β} (hx : x.Returns calm)
    (hf : ∀ a, x = done a → (f a).Returns calm) : (x >>= f).Returns calm := by
  cases x with
  | done a => exact hf a rfl
  | failed e => trivial
  | panics => exact hx
  | unfinished => exact hx

theorem Returns.foldlM (h : ∀ x ∈ xs, ∀ b, (f b x).Returns calm) (b : β) :
    (xs.foldlM f b).Returns calm := by
  induction xs generalizing b with
  | nil => trivial
  | cons x xs ih =>
    rw [foldlM_cons]
    exact (h x mem_cons_self b).bind fun c _ => ih (fun y hy => h y (mem_cons_of_mem _ hy)) c

/-- A call that returns does what another one does whose parts agree with its own. -/
theorem bind_congr_of_returns {x y : Parsed α} {f g : α → Parsed β} (hx : x.Returns calm → y = x)
    (h : (x >>= f).Returns calm) (hf : ∀ a, (f a).Returns calm → g a = f a) :
    y >>= g = x >>= f := by
  have hreturns : x.Returns calm := by
    cases x with
    | done a => trivial
    | failed e => trivial
    | panics => exact h
    | unfinished => exact h
  rw [hx hreturns]
  cases x with
  | done a => exact hf a h
  | failed e => rfl
  | panics => rfl
  | unfinished => rfl

theorem foldlM_congr_of_returns {f g : β → α → Parsed β}
    (h : ∀ x ∈ xs, ∀ b, (f b x).Returns calm → g b x = f b x) {b : β}
    (hf : (xs.foldlM f b).Returns calm) : xs.foldlM g b = xs.foldlM f b := by
  induction xs generalizing b with
  | nil => rfl
  | cons x xs ih =>
    rw [foldlM_cons] at hf ⊢
    rw [foldlM_cons]
    exact bind_congr_of_returns (h x mem_cons_self b) hf fun c hc =>
      ih (fun y hy => h y (mem_cons_of_mem _ hy)) hc

/-- A loop that maps a list ends if each of its rounds does. -/
theorem exists_mapM {f : α → Parsed β} (h : ∀ x ∈ xs, ∃ y, f x = done y) :
    ∃ ys, xs.mapM f = done ys := by
  induction xs with
  | nil => exact ⟨[], by simp⟩
  | cons x xs ih =>
    obtain ⟨y, hy⟩ := h x mem_cons_self
    obtain ⟨ys, hys⟩ := ih fun z hz => h z (mem_cons_of_mem _ hz)
    exact ⟨y :: ys, by rw [mapM_cons, hy, done_bind, hys, done_bind, pure_eq]⟩

/-- The results of a loop that maps a list, one by one. -/
theorem getElem?_mapM {f : α → Parsed β} {ys : List β} (h : xs.mapM f = done ys) (i : Nat) :
    (∃ x y, xs[i]? = some x ∧ ys[i]? = some y ∧ f x = done y) ∨
      xs[i]? = none ∧ ys[i]? = none := by
  induction xs generalizing ys i with
  | nil =>
    obtain rfl : [] = ys := by simpa using h
    simp
  | cons x xs ih =>
    rw [mapM_cons, bind_eq_done] at h
    obtain ⟨y, hy, h⟩ := h
    rw [bind_eq_done] at h
    obtain ⟨zs, hzs, h⟩ := h
    obtain rfl : y :: zs = ys := by simpa using h
    cases i with
    | zero => exact .inl ⟨x, y, rfl, rfl, hy⟩
    | succ i => exact ih hzs i

end Parsed

/-- Fuel that is enough for each of finitely many calls is enough for all of them. -/
theorem exists_fuel {α : Type} {P : Nat → α → Prop} {xs : List α}
    (hmono : ∀ m n x, m ≤ n → P m x → P n x) (h : ∀ x ∈ xs, ∃ n, P n x) : ∃ n, ∀ x ∈ xs, P n x := by
  induction xs with
  | nil => exact ⟨0, by simp⟩
  | cons x xs ih =>
    obtain ⟨n, hn⟩ := h x mem_cons_self
    obtain ⟨m, hm⟩ := ih fun y hy => h y (mem_cons_of_mem _ hy)
    refine ⟨max n m, ?_⟩
    intro y hy
    rcases mem_cons.1 hy with rfl | hy
    · exact hmono _ _ _ (le_max_left n m) hn
    · exact hmono _ _ _ (le_max_right n m) (hm y hy)

end SharWorkflow
