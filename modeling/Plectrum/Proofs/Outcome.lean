import Mathlib.Data.List.Induction

/-!
# Outcomes

How the steps of a computation that may fail account for its result.
-/

namespace Plectrum
namespace Outcome

variable {error fault result value : Type}

theorem bind_eq_ok_iff {x : Except error value} {f : value -> Except error result}
    {b : result} :
    (x >>= f) = .ok b <-> exists a, x = .ok a ∧ f a = .ok b := by
  cases x with
  | error e =>
      constructor
      · intro h
        cases h
      · intro ⟨_, h, _⟩
        cases h
  | ok a =>
      constructor
      · intro h
        exact ⟨a, rfl, h⟩
      · intro ⟨_, ha, h⟩
        injection ha with ha
        exact ha ▸ h

theorem map_eq_ok_iff {x : Except error value} {f : value -> result} {b : result} :
    x.map f = .ok b <-> exists a, x = .ok a ∧ f a = b := by
  cases x with
  | error e =>
      constructor
      · intro h
        cases h
      · intro ⟨_, h, _⟩
        cases h
  | ok a =>
      constructor
      · intro h
        injection h with h
        exact ⟨a, rfl, h⟩
      · intro ⟨_, ha, h⟩
        injection ha with ha
        subst ha h
        rfl

theorem mapError_eq_ok_iff {x : Except error value} {f : error -> fault} {a : value} :
    x.mapError f = .ok a <-> x = .ok a := by
  cases x with
  | error e =>
      constructor
      · intro h
        cases h
      · intro h
        cases h
  | ok b =>
      constructor
      · intro h
        injection h with h
        rw [h]
      · intro h
        injection h with h
        rw [h]
        rfl

theorem ok_iff_forall_ne_error {x : Except error value} :
    (exists a, x = .ok a) <-> forall e, ¬ x = .error e := by
  cases x with
  | error e =>
      constructor
      · intro ⟨_, h⟩
        cases h
      · intro h
        exact absurd rfl (h e)
  | ok a =>
      constructor
      · intro _ e h
        cases h
      · intro _
        exact ⟨a, rfl⟩

theorem toOption_eq_some_iff {x : Except error value} {a : value} :
    x.toOption = some a <-> x = .ok a := by
  cases x with
  | error e =>
      constructor
      · intro h
        cases h
      · intro h
        cases h
  | ok b =>
      constructor
      · intro h
        injection h with h
        rw [h]
      · intro h
        injection h with h
        rw [h]
        rfl

theorem isSome_toOption_iff {x : Except error value} :
    x.toOption.isSome = true <-> exists a, x = .ok a := by
  rw [Option.isSome_iff_exists]
  simp only [toOption_eq_some_iff]

theorem bind_eq_error_iff {x : Except error value} {f : value -> Except error result}
    {e : error} :
    (x >>= f) = .error e <-> x = .error e ∨ exists a, x = .ok a ∧ f a = .error e := by
  cases x with
  | error d =>
      constructor
      · intro h
        injection h with h
        rw [h]
        exact Or.inl rfl
      · intro h
        rcases h with h | ⟨_, h, _⟩
        · injection h with h
          rw [h]
          rfl
        · cases h
  | ok a =>
      constructor
      · intro h
        exact Or.inr ⟨a, rfl, h⟩
      · intro h
        rcases h with h | ⟨_, ha, h⟩
        · cases h
        · injection ha with ha
          exact ha ▸ h

theorem map_eq_error_iff {x : Except error value} {f : value -> result} {e : error} :
    x.map f = .error e <-> x = .error e := by
  cases x with
  | error d =>
      constructor
      · intro h
        injection h with h
        rw [h]
      · intro h
        injection h with h
        rw [h]
        rfl
  | ok a =>
      constructor
      · intro h
        cases h
      · intro h
        cases h

theorem mapError_eq_error_iff {x : Except error value} {f : error -> fault} {e : fault} :
    x.mapError f = .error e <-> exists d, x = .error d ∧ f d = e := by
  cases x with
  | error d =>
      constructor
      · intro h
        injection h with h
        exact ⟨d, rfl, h⟩
      · intro ⟨_, hd, h⟩
        injection hd with hd
        subst hd h
        rfl
  | ok a =>
      constructor
      · intro h
        cases h
      · intro ⟨_, h, _⟩
        cases h

theorem foldlM_eq_ok_iff {step : result -> value -> Except error result}
    {allowed : value -> Prop} {next : result -> value -> result}
    (hstep : forall b x c, step b x = .ok c <-> allowed x ∧ c = next b x)
    (xs : List value) :
    forall {b c : result},
      xs.foldlM step b = .ok c <->
        (forall x, x ∈ xs -> allowed x) ∧ c = xs.foldl next b := by
  induction xs with
  | nil =>
      intro b c
      constructor
      · intro h
        injection h with h
        exact ⟨(fun _ hx => by cases hx), h.symm⟩
      · intro h
        rw [h.right]
        rfl
  | cons x rest ih =>
      intro b c
      rw [List.foldlM_cons, bind_eq_ok_iff, List.forall_mem_cons, and_assoc]
      constructor
      · intro ⟨mid, hmid, hrest⟩
        rcases (hstep b x mid).mp hmid with ⟨hx, rfl⟩
        exact ⟨hx, ih.mp hrest⟩
      · intro ⟨hx, hrest⟩
        exact ⟨next b x, (hstep b x _).mpr ⟨hx, rfl⟩, ih.mpr hrest⟩

theorem foldlM_eq_error_iff {step : result -> value -> Except error result}
    (xs : List value) :
    forall {b : result} {e : error},
      xs.foldlM step b = .error e <->
        exists front x back mid, xs = front ++ x :: back ∧
          front.foldlM step b = .ok mid ∧ step mid x = .error e := by
  induction xs with
  | nil =>
      intro b e
      constructor
      · intro h
        cases h
      · intro ⟨front, x, back, _, h, _⟩
        cases List.append_eq_nil_iff.mp h.symm with
        | intro _ hcons => cases hcons
  | cons y rest ih =>
      intro b e
      rw [List.foldlM_cons, bind_eq_error_iff]
      constructor
      · intro h
        rcases h with hfirst | ⟨mid, hmid, hrest⟩
        · exact ⟨[], y, rest, b, rfl, rfl, hfirst⟩
        · rcases ih.mp hrest with ⟨front, x, back, last, hsplit, hfront, hx⟩
          refine ⟨y :: front, x, back, last, congrArg (y :: ·) hsplit, ?_, hx⟩
          rw [List.foldlM_cons]
          exact bind_eq_ok_iff.mpr ⟨mid, hmid, hfront⟩
      · intro ⟨front, x, back, last, hsplit, hfront, hx⟩
        cases front with
        | nil =>
            injection hsplit with hy _
            injection hfront with hlast
            exact Or.inl (by rw [hy, hlast, hx])
        | cons z front =>
            injection hsplit with hy hrest
            rw [List.foldlM_cons] at hfront
            rcases bind_eq_ok_iff.mp hfront with ⟨mid, hmid, hfront⟩
            exact Or.inr ⟨mid, hy ▸ hmid, ih.mpr ⟨front, x, back, last, hrest, hfront, hx⟩⟩

theorem mapM_eq_error_iff {f : value -> Except error result} {e : error} (xs : List value) :
    xs.mapM f = .error e <->
      exists front x back, xs = front ++ x :: back ∧
        (forall y, y ∈ front -> exists b, f y = .ok b) ∧ f x = .error e := by
  induction xs with
  | nil =>
      constructor
      · intro h
        cases h
      · intro ⟨front, x, back, h, _⟩
        cases (List.append_eq_nil_iff.mp h.symm).right
  | cons y rest ih =>
      rw [List.mapM_cons, bind_eq_error_iff]
      constructor
      · intro h
        rcases h with hfirst | ⟨b, hb, hbind⟩
        · exact ⟨[], y, rest, rfl, (fun _ hy => by cases hy), hfirst⟩
        · rcases bind_eq_error_iff.mp hbind with hrest | ⟨_, _, hreturn⟩
          · rcases ih.mp hrest with ⟨front, x, back, hsplit, hfront, hx⟩
            exact ⟨y :: front, x, back, congrArg (y :: ·) hsplit,
              List.forall_mem_cons.mpr ⟨⟨b, hb⟩, hfront⟩, hx⟩
          · cases hreturn
      · intro ⟨front, x, back, hsplit, hfront, hx⟩
        cases front with
        | nil =>
            injection hsplit with hy _
            exact Or.inl (hy ▸ hx)
        | cons z front =>
            injection hsplit with hy hrest
            rcases List.forall_mem_cons.mp hfront with ⟨⟨b, hb⟩, hfront⟩
            exact Or.inr ⟨b, hy ▸ hb,
              bind_eq_error_iff.mpr (Or.inl (ih.mpr ⟨front, x, back, hrest, hfront, hx⟩))⟩

/-!
# Folds by what they have passed

What is known about a result may depend on the values that were folded into it.
-/

section Passed

variable {step : result -> value -> Except error result} {start : result}
  {allowed : value -> Prop} (Known : List value -> result -> Prop)
  (hstart : Known [] start)
  (hstep : forall passed b x c, allowed x -> Known passed b -> step b x = .ok c ->
    Known (passed ++ [x]) c)
include hstart hstep

theorem foldlM_known {xs : List value} (hallowed : forall x, x ∈ xs -> allowed x)
    {c : result} (h : xs.foldlM step start = .ok c) : Known xs c := by
  induction xs using List.reverseRecOn generalizing c with
  | nil =>
      injection h with h
      exact h ▸ hstart
  | append_singleton passed x ih =>
      rw [List.foldlM_append] at h
      rcases bind_eq_ok_iff.mp h with ⟨b, hb, hx⟩
      rcases bind_eq_ok_iff.mp hx with ⟨d, hd, hc⟩
      injection hc with hc
      have hpassed := ih (fun y hy => hallowed y (List.mem_append_left [x] hy)) hb
      have hx := hallowed x (List.mem_append_right passed List.mem_cons_self)
      exact hc ▸ hstep passed b x d hx hpassed hd

/-- A fold succeeds if every value fits to those before it. -/
theorem foldlM_ok_iff (Good : List value -> Prop) (Fits : List value -> value -> Prop)
    (hnil : Good [])
    (hconcat : forall passed x, Good (passed ++ [x]) <-> Good passed ∧ Fits passed x)
    (hfits : forall passed b x, allowed x -> Known passed b ->
      ((exists c, step b x = .ok c) <-> Fits passed x))
    {xs : List value} (hallowed : forall x, x ∈ xs -> allowed x) :
    (exists c, xs.foldlM step start = .ok c) <-> Good xs := by
  induction xs using List.reverseRecOn with
  | nil => exact ⟨fun _ => hnil, fun _ => ⟨start, rfl⟩⟩
  | append_singleton passed x ih =>
      have hpassed : forall y, y ∈ passed -> allowed y :=
        fun y hy => hallowed y (List.mem_append_left [x] hy)
      have hx := hallowed x (List.mem_append_right passed List.mem_cons_self)
      rw [hconcat, <- ih hpassed, List.foldlM_append]
      constructor
      · intro ⟨c, h⟩
        rcases bind_eq_ok_iff.mp h with ⟨b, hb, hlast⟩
        rcases bind_eq_ok_iff.mp hlast with ⟨d, hd, _⟩
        have hknown := foldlM_known Known hstart hstep hpassed hb
        exact ⟨⟨b, hb⟩, (hfits passed b x hx hknown).mp ⟨d, hd⟩⟩
      · intro ⟨⟨b, hb⟩, hfit⟩
        have hknown := foldlM_known Known hstart hstep hpassed hb
        rcases (hfits passed b x hx hknown).mpr hfit with ⟨d, hd⟩
        exact ⟨d, bind_eq_ok_iff.mpr ⟨b, hb, bind_eq_ok_iff.mpr ⟨d, hd, rfl⟩⟩⟩

theorem foldlM_fault_iff (Good : List value -> Prop)
    (Fault : List value -> value -> error -> Prop)
    (hgood : forall passed, (forall x, x ∈ passed -> allowed x) ->
      ((exists c, passed.foldlM step start = .ok c) <-> Good passed))
    (hfault : forall passed b x e, allowed x -> Known passed b ->
      (step b x = .error e <-> Fault passed x e))
    {xs : List value} (hallowed : forall x, x ∈ xs -> allowed x) {e : error} :
    xs.foldlM step start = .error e <->
      exists front x back, xs = front ++ x :: back ∧ Good front ∧ Fault front x e := by
  have hsplit : forall {front x back}, xs = front ++ x :: back ->
      (forall y, y ∈ front -> allowed y) ∧ allowed x := by
    intro front x back h
    rw [h] at hallowed
    exact ⟨fun y hy => hallowed y (List.mem_append_left (x :: back) hy),
      hallowed x (List.mem_append_right front List.mem_cons_self)⟩
  rw [foldlM_eq_error_iff]
  constructor
  · intro ⟨front, x, back, mid, hxs, hmid, herror⟩
    rcases hsplit hxs with ⟨hfront, hx⟩
    have hknown := foldlM_known Known hstart hstep hfront hmid
    exact ⟨front, x, back, hxs, (hgood front hfront).mp ⟨mid, hmid⟩,
      (hfault front mid x e hx hknown).mp herror⟩
  · intro ⟨front, x, back, hxs, hfits, hfaulty⟩
    rcases hsplit hxs with ⟨hfront, hx⟩
    rcases (hgood front hfront).mpr hfits with ⟨mid, hmid⟩
    have hknown := foldlM_known Known hstart hstep hfront hmid
    exact ⟨front, x, back, mid, hxs, hmid,
      (hfault front mid x e hx hknown).mpr hfaulty⟩

end Passed

theorem foldlM_invariant {step : result -> value -> Except error result}
    (P : result -> Prop) (xs : List value)
    (hstep : forall b x c, x ∈ xs -> P b -> step b x = .ok c -> P c)
    {b c : result} (hb : P b) (h : xs.foldlM step b = .ok c) : P c :=
  foldlM_known (fun _ => P) hb (fun _ => hstep) (fun _ hx => hx) h

end Outcome
end Plectrum
