import AccountLint.Proofs.Total.Types

/-! The order of a search behind a type. What a search finds is the first find among the types in
this order, whatever it looks for. -/
namespace AccountLint

section Steps

variable {β : Type} {types : List TypeDecl} {find : TypeDecl → Option β}
  {outside : Int → Except Fault Unit} {seen : List Int} {i : Int} {work : List (Option TypeRef)}

theorem searchBehind_of_seen (hs : seen.contains i = true) :
    searchBehind types find outside seen (some (.index i) :: work) =
      searchBehind types find outside seen work := by
  rw [searchBehind, dif_pos hs]

theorem searchBehind_of_none (hs : seen.contains i = false) (h : typeAt? types i = none) :
    searchBehind types find outside seen (some (.index i) :: work) =
      outside i >>= fun _ => searchBehind types find outside seen work := by
  rw [searchBehind, dif_neg (by rw [hs]; exact Bool.false_ne_true)]
  split
  · rfl
  · rename_i t ht
    cases h.symm.trans ht

theorem searchBehind_of_some {t : TypeDecl} (hs : seen.contains i = false)
    (h : typeAt? types i = some t) :
    searchBehind types find outside seen (some (.index i) :: work) =
      ((find t).map fun b => .ok (some b)).getD
        (searchBehind types find outside (i :: seen) (t.args.reverse ++ work)) := by
  rw [searchBehind, dif_neg (by rw [hs]; exact Bool.false_ne_true)]
  split
  · rename_i hnone
    cases h.symm.trans hnone
  · rename_i u hu
    obtain rfl := Option.some.inj (h.symm.trans hu)
    cases find t <;> rfl

/-- A search for something else that can be told from what is found. -/
theorem searchBehind_map {γ : Type} (g : β → γ) (seen : List Int) (work : List (Option TypeRef)) :
    searchBehind types (fun t => (find t).map g) outside seen work =
      (searchBehind types find outside seen work).map (Option.map g) := by
  fun_induction searchBehind types find outside seen work with
  | case1 =>
    rw [searchBehind]
    rfl
  | case2 seen work ih => rw [searchBehind, ih]
  | case3 =>
    rw [searchBehind]
    rfl
  | case4 seen i work hs ih => rw [searchBehind_of_seen hs, ih]
  | case5 seen i work hs hnone ih =>
    rw [searchBehind_of_none (Bool.eq_false_iff.mpr hs) hnone, ih, exceptMap_bind]
  | case6 seen i work hs t hat b hb =>
    rw [searchBehind_of_some (Bool.eq_false_iff.mpr hs) hat, hb]
    rfl
  | case7 seen i work hs t hat hnone ih =>
    rw [searchBehind_of_some (Bool.eq_false_iff.mpr hs) hat, hnone, ← ih]
    rfl

end Steps

/-- The types behind those of a work list, in the order of a search that finds nothing: every type
before its arguments, and these from the last to the first. -/
def typesBehind (types : List TypeDecl) (seen : List Int) : List (Option TypeRef) → List TypeDecl
  | [] => []
  | none :: work => typesBehind types seen work
  | some (.unresolved _) :: work => typesBehind types seen work
  | some (.index i) :: work =>
    if _hs : seen.contains i = true then typesBehind types seen work
    else
      match _h : typeAt? types i with
      | none => typesBehind types seen work
      | some t => t :: typesBehind types (i :: seen) (t.args.reverse ++ work)
termination_by work => weight seen types.zipIdx + work.length
decreasing_by
  all_goals simp_wf
  have hi := toNat_of_typeAt? _h
  have := weight_cons_lt (mem_zipIdx_of_typeAt? _h) (by rw [hi]; simpa using _hs)
  rw [hi] at this
  omega

/-- Where all references are to types of the table, a search returns the first find in the order of
the search. -/
theorem Program.searchBehind_eq {p : Program} (hargs : ∀ t ∈ p.types, ∀ a ∈ t.args, p.InTable a)
    {β : Type} (find : TypeDecl → Option β) (outside : Int → Except Fault Unit) (seen : List Int)
    {work : List (Option TypeRef)} (hwork : ∀ r ∈ work, p.InTable r) :
    searchBehind p.types find outside seen work =
      .ok ((typesBehind p.types seen work).findSome? find) := by
  fun_induction typesBehind p.types seen work with
  | case1 => rw [searchBehind, List.findSome?_nil]
  | case2 seen work ih =>
    rw [searchBehind]
    exact ih fun r hr => hwork r (List.mem_cons_of_mem _ hr)
  | case3 => exact (hwork _ List.mem_cons_self).not_unresolved.elim
  | case4 seen i work hs ih =>
    rw [searchBehind_of_seen hs]
    exact ih fun r hr => hwork r (List.mem_cons_of_mem _ hr)
  | case5 seen i work hs hnone ih =>
    obtain ⟨h0, hlt⟩ := (hwork _ List.mem_cons_self).index
    obtain ⟨t, _, hat, _⟩ := exists_typeAt? h0 hlt
    rw [hnone] at hat
    cases hat
  | case6 seen i work hs t hat ih =>
    rw [searchBehind_of_some (Bool.eq_false_iff.mpr hs) hat, List.findSome?_cons]
    cases find t with
    | some b => rfl
    | none =>
      refine ih fun r hr => ?_
      rcases List.mem_append.mp hr with hr | hr
      · exact hargs t (List.fst_mem_of_mem_zipIdx (mem_zipIdx_of_typeAt? hat)) r
          (List.mem_reverse.mp hr)
      · exact hwork r (List.mem_cons_of_mem _ hr)

section Unwrapping

variable {p q : Program} {wrappers : List String} {seen : List Int} {i : Int}

theorem Program.unwrapFrom_of_seen (hs : seen.contains i = true) :
    p.unwrapFrom wrappers seen (some (.index i)) = .ok (some (.index i)) := by
  rw [unwrapFrom, dif_pos hs]

theorem Program.unwrapFrom_of_none (hs : seen.contains i = false) (h : typeAt? p.types i = none) :
    p.unwrapFrom wrappers seen (some (.index i)) = .error (.model (.typeRange i)) := by
  rw [unwrapFrom, dif_neg (by rw [hs]; exact Bool.false_ne_true)]
  split
  · rfl
  · rename_i t ht
    cases h.symm.trans ht

theorem Program.unwrapFrom_of_some {t : TypeDecl} (hs : seen.contains i = false)
    (h : typeAt? p.types i = some t) :
    p.unwrapFrom wrappers seen (some (.index i)) = t.name >>= fun name =>
      ((if wrappers.contains name then t.args.head? else none).map
        (p.unwrapFrom wrappers (i :: seen))).getD (.ok (some (.index i))) := by
  rw [unwrapFrom, dif_neg (by rw [hs]; exact Bool.false_ne_true)]
  split
  · rename_i hnone
    cases h.symm.trans hnone
  · rename_i u hu
    obtain rfl := Option.some.inj (h.symm.trans hu)
    refine bind_congr fun name => ?_
    cases wrappers.contains name <;> cases t.args <;> rfl

/-- What wrappers are peeled depends on the names and the arguments of types only. -/
theorem Program.unwrapFrom_congr (h : ∀ i, (typeAt? q.types i).map (fun t => (t.name, t.args)) =
      (typeAt? p.types i).map fun t => (t.name, t.args)) (wrappers : List String) (seen : List Int)
    (type : Option TypeRef) : q.unwrapFrom wrappers seen type = p.unwrapFrom wrappers seen type := by
  fun_induction Program.unwrapFrom p wrappers seen type with
  | case1 => rw [unwrapFrom]
  | case2 => rw [unwrapFrom]
  | case3 seen i hs => exact unwrapFrom_of_seen hs
  | case4 seen i hs hnone =>
    have hi := h i
    rw [hnone, Option.map_none, Option.map_eq_none_iff] at hi
    exact unwrapFrom_of_none (Bool.eq_false_iff.mpr hs) hi
  | case5 seen i hs t ht ih =>
    have hi := h i
    rw [ht, Option.map_some, Option.map_eq_some_iff] at hi
    obtain ⟨u, hu, heq⟩ := hi
    obtain ⟨hname, hargs⟩ := Prod.mk.inj heq
    rw [unwrapFrom_of_some (Bool.eq_false_iff.mpr hs) hu, hname, hargs]
    refine bind_congr fun name => ?_
    cases wrappers.contains name with
    | false => rfl
    | true =>
      cases t.args with
      | nil => rfl
      | cons a rest => exact ih a

end Unwrapping

end AccountLint
