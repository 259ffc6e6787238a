/-
Members between brackets. A bracketed list of written members can be
taken apart in one way only, provided that each member ends where it
ends: `Delimited` says this of a member against what may follow it, and
`joined_append_inj` carries it from the members to the list, so that a
list is again such a member of a larger one.
-/
import GitPersona.Proofs.Json.Literal
import Mathlib.Data.List.Basic

namespace GitPersona.Json

-- =============================================================== members

/-- What may follow a member: a comma, or the bracket that closes. -/
def Follows (close : Char) (r : List Char) : Prop :=
  ∃ t, r = ',' :: t ∨ r = close :: t

/-- Texts that start with these two members agree only if the members do. -/
def Delimited (close : Char) (x y : List Char) : Prop :=
  ∀ r r', Follows close r → Follows close r' → x ++ r = y ++ r' →
    x = y ∧ r = r'

/-- A member in which nothing that may follow it occurs ends where it ends. -/
theorem delimited_of_notMem {close : Char} {x y : List Char}
    (hx : ',' ∉ x ∧ close ∉ x) (hy : ',' ∉ y ∧ close ∉ y) :
    Delimited close x y := by
  intro r r' hr hr' h
  have hhead : ∀ {z s t : List Char}, ',' ∉ z ∧ close ∉ z → Follows close s →
      s ≠ z ++ t ∨ z = [] := by
    intro z s t hz hs
    cases z with
    | nil => exact Or.inr rfl
    | cons c z =>
        refine Or.inl fun hs' => ?_
        obtain ⟨u, rfl | rfl⟩ := hs
        · obtain ⟨rfl, -⟩ := List.cons.inj hs'
          exact hz.1 List.mem_cons_self
        · obtain ⟨rfl, -⟩ := List.cons.inj hs'
          exact hz.2 List.mem_cons_self
  rcases List.append_eq_append_iff.1 h with ⟨z, rfl, hz⟩ | ⟨z, rfl, hz⟩
  · simp only [List.mem_append, not_or] at hy
    rcases hhead ⟨hy.1.2, hy.2.2⟩ hr with hne | rfl
    · exact absurd hz hne
    · exact ⟨(List.append_nil x).symm, hz⟩
  · simp only [List.mem_append, not_or] at hx
    rcases hhead ⟨hx.1.2, hx.2.2⟩ hr' with hne | rfl
    · exact absurd hz hne
    · exact ⟨List.append_nil y, hz.symm⟩

-- ================================================================ joined

variable {close : Char} {gap : List Char}

/-- What follows the first member of a joined list. -/
private def afterFirst (gap : List Char) (xs : List (List Char))
    (tail : List Char) : List Char :=
  match xs with
  | [] => tail
  | _ :: _ => ',' :: gap ++ ((',' :: gap).intercalate xs ++ tail)

private theorem intercalate_cons_append (x : List Char) (xs : List (List Char))
    (tail : List Char) :
    (',' :: gap).intercalate (x :: xs) ++ tail = x
      ++ afterFirst gap xs tail := by
  cases xs with
  | nil => rw [List.intercalate_singleton, afterFirst]
  | cons y ys =>
      rw [List.intercalate_cons_cons, afterFirst, List.append_assoc,
        List.append_assoc]

private theorem follows_afterFirst (xs : List (List Char)) (r : List Char) :
    Follows close (afterFirst gap xs (close :: r)) := by
  cases xs with
  | nil => exact ⟨r, Or.inr rfl⟩
  | cons y ys => exact ⟨_, Or.inl rfl⟩

/-- A closing bracket is not where a member starts. -/
private theorem close_ne_joined {x : List Char} {xs : List (List Char)}
    {r tail : List Char}
    (hclose : close ≠ '"') (hx : x.head? = some '"') :
    close :: r ≠ (',' :: gap).intercalate (x :: xs) ++ tail := by
  intro h
  obtain ⟨t, rfl⟩ := List.head?_eq_some_iff.1 hx
  rw [intercalate_cons_append] at h
  exact hclose (List.cons.inj h).1

/-- Members joined by a separator and closed by a bracket, each starting with a
quote, agree with others so joined only member by member. -/
theorem joined_append_inj {xs ys : List (List Char)} {r r' : List Char}
    (hclose : close ≠ '"') (hcomma : close ≠ ',')
    (hxs : ∀ x ∈ xs, x.head? = some '"') (hys : ∀ y ∈ ys, y.head? = some '"')
    (hdelimited : ∀ p ∈ xs.zip ys, Delimited close p.1 p.2)
    (h : (',' :: gap).intercalate xs ++ close
        :: r = (',' :: gap).intercalate ys ++ close :: r') :
    xs = ys ∧ r = r' := by
  induction xs generalizing ys with
  | nil =>
      cases ys with
      | nil => exact ⟨rfl, (List.cons.inj h).2⟩
      | cons y ys => exact absurd h (close_ne_joined
          hclose (hys y List.mem_cons_self))
  | cons x xs ih =>
      cases ys with
      | nil => exact absurd h.symm (close_ne_joined hclose
          (hxs x List.mem_cons_self))
      | cons y ys =>
          rw [List.zip_cons_cons, List.forall_mem_cons] at hdelimited
          rw [intercalate_cons_append, intercalate_cons_append] at h
          -- both members end where a separator or the bracket follows
          obtain ⟨rfl, hrest⟩ : x = y ∧ _ :=
            hdelimited.1 _ _ (follows_afterFirst xs r)
              (follows_afterFirst ys r') h
          cases xs with
          | nil =>
              cases ys with
              | nil => exact ⟨rfl, (List.cons.inj hrest).2⟩
              | cons y' ys => exact absurd (List.cons.inj hrest).1 hcomma
          | cons x' xs =>
              cases ys with
              | nil => exact absurd (List.cons.inj hrest).1.symm hcomma
              | cons y' ys =>
                  obtain ⟨hmembers, rfl⟩ := ih
                    (fun z hz => hxs z (List.mem_cons_of_mem _ hz))
                    (fun z hz => hys z (List.mem_cons_of_mem _ hz))
                    hdelimited.2 (List.append_cancel_left hrest)
                  exact ⟨congrArg _ hmembers, rfl⟩

-- =============================================================== objects

/-- Fields joined into the members of an object agree with others only field by
field: keys are literals, and each value is delimited against the other's. -/
theorem fields_append_inj {write : List Char → List Char} {colon : List Char}
    {fs gs : List (String × List Char)} {r r' : List Char}
    (hquote : ∀ cs, (write cs).head? = some '"')
    (hwrite : ∀ {cs ds s s' : List Char}, write cs ++ s = write ds ++ s' →
        cs = ds ∧ s = s')
    (hdelimited : ∀ p ∈ fs.zip gs, Delimited '}' p.1.2 p.2.2)
    (h : (',' :: gap).intercalate
        (fs.map fun f => write f.1.toList ++ (colon ++ f.2)) ++ '}' :: r
      = (',' :: gap).intercalate
        (gs.map fun f => write f.1.toList ++ (colon ++ f.2)) ++ '}' :: r') :
    fs = gs ∧ r = r' := by
  have hhead : ∀ hs : List (String × List Char),
      ∀ x ∈ hs.map fun f => write f.1.toList ++ (colon ++ f.2),
        x.head? = some '"' := by
    intro hs x hx
    obtain ⟨f, -, rfl⟩ := List.mem_map.1 hx
    rw [List.head?_append, hquote, Option.some_or]
  have hfield : ∀ {f g : String × List Char} {s s' : List Char},
      write f.1.toList ++ (colon ++ f.2) ++ s = write g.1.toList
        ++ (colon ++ g.2) ++ s' →
        f.1 = g.1 ∧ f.2 ++ s = g.2 ++ s' := by
    intro f g s s' hfg
    rw [List.append_assoc (write f.1.toList),
      List.append_assoc (write g.1.toList)] at hfg
    obtain ⟨hkey, hvalue⟩ := hwrite hfg
    rw [List.append_assoc, List.append_assoc] at hvalue
    exact ⟨String.toList_inj.1 hkey, List.append_cancel_left hvalue⟩
  -- a field is delimited against another since its value is: once the
  -- keys agree, only the values are left
  have hpairs : ∀ p ∈ (fs.map fun f => write f.1.toList ++ (colon ++ f.2)).zip
      (gs.map fun f => write f.1.toList ++ (colon ++ f.2)),
        Delimited '}' p.1 p.2 := by
    intro p hp
    rw [List.zip_map] at hp
    obtain ⟨⟨f, g⟩, hfg, rfl⟩ := List.mem_map.1 hp
    intro s s' hs hs' heq
    obtain ⟨hkey, hvalue⟩ := hfield heq
    obtain ⟨hsame, rfl⟩ : f.2 = g.2 ∧ s = s' :=
      hdelimited (f, g) hfg s s' hs hs' hvalue
    refine ⟨?_, rfl⟩
    show write f.1.toList ++ (colon ++ f.2) = write g.1.toList
        ++ (colon ++ g.2)
    rw [hkey, hsame]
  obtain ⟨hmembers, rfl⟩ :=
    joined_append_inj (by decide) (by decide) (hhead fs) (hhead gs) hpairs h
  refine ⟨List.map_injective_iff.2 (fun f g hfg => ?_) hmembers, rfl⟩
  have hfg' := hfield (s := []) (congrArg (· ++ []) hfg)
  rw [List.append_nil, List.append_nil] at hfg'
  exact Prod.ext hfg'.1 hfg'.2

end GitPersona.Json
