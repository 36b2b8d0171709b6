import Chartwright.Proofs.Line.StrandLink
import Chartwright.Proofs.Line.StrandWithout
/-!
The edge that a tidy strand shows without a node.

Taking other nodes away keeps the link if no declaration stands further left in the first group, or
if the first arrow directly behind a label stays the same (`Strand.edgeOn?_without`).
-/
namespace Chartwright

open Row

variable {id : Text}

theorem Token.keeps_iff (hid : Identifier.valid id = true) {e : Token} :
    e.keeps id = true ↔ e.id ≠ id := by
  rw [Token.keeps, e.isTokenOf_written hid]
  simp

namespace Row

theorem exists_joined_eq_cons (e : Token) (es : List Token) :
    ∃ rest, joined (e :: es) = .node e :: rest := by
  cases es <;> exact ⟨_, rfl⟩

theorem exists_joined_eq_concat (e : Token) (es : List Token) :
    ∃ front last, joined (e :: es) = front ++ [.node last] := by
  induction es generalizing e with
  | nil => exact ⟨[], e, rfl⟩
  | cons f rest ih =>
    obtain ⟨front, last, heq⟩ := ih f
    exact ⟨.node e :: .space :: .ampersand :: .space :: front, last, by rw [joined, heq]; rfl⟩

variable {before after : List Token} {e e' f : Token} {next next' found : Connector × Text}
  {landing landing' : Option (Connector × Text)}

/-- A link from a declaration further left is the same when that declaration comes to stand last in
its group. -/
theorem linkFrom_of_declared (hnodes : after ++ [e'] = (before ++ [e]).filter (·.keeps id))
    (hfind : before.find? (·.label.isSome) = some f) (hf : f.keeps id = true)
    (hland : landing' = some found) (hnext : e'.label.isSome = true → landing' = some next') :
    linkFrom after e'.id next' landing' = (f.id, found) := by
  have hfirst : (after ++ [e']).find? (·.label.isSome) = some f := by
    obtain ⟨hlabel, front, back, hsplit, hfront⟩ := List.find?_eq_some_iff_append.1 hfind
    rw [hnodes, List.find?_filter]
    refine List.find?_eq_some_iff_append.2 ⟨by simp [hf, hlabel], front,
      back ++ [e], by simp [hsplit], fun x hx => ?_⟩
    have hbare : x.label.isSome = false := by simpa using hfront x hx
    simp [hbare]
  rw [List.find?_append] at hfirst
  cases hafter : after.find? (·.label.isSome) with
  | some x =>
    rw [hafter, Option.some_or] at hfirst
    cases hfirst
    simp only [linkFrom, hafter, hland]
  | none =>
    -- the declaration is the last node of its group now, and its link goes over the first arrow
    rw [hafter, Option.none_or, List.find?_singleton, Option.ite_none_right_eq_some] at hfirst
    obtain ⟨hlabel, hlast⟩ := hfirst
    obtain rfl := Option.some.inj hlast
    obtain rfl := Option.some.inj (hland.symm.trans (hnext hlabel))
    simp only [linkFrom, hafter]

/-- A link from the last node of the first group is the same, for no declaration has come before
it. -/
theorem linkFrom_of_plain (hnodes : after ++ [e'] = (before ++ [e]).filter (·.keeps id))
    (he : e.keeps id = true)
    (hnone : ∀ f found, before.find? (·.label.isSome) = some f → landing = some found → False)
    (hland : landing = none → landing' = none) :
    linkFrom after e'.id next landing' = (e.id, next) := by
  rw [List.filter_append, List.filter_cons_of_pos he, List.filter_nil] at hnodes
  obtain ⟨rfl, hlast⟩ := List.append_inj' hnodes rfl
  obtain rfl := (List.cons.inj hlast).1
  unfold linkFrom
  split
  · next f found hfind =>
    -- a declaration that stands before the last node now stood there before
    exfalso
    have hmem : f ∈ before := (List.mem_filter.1 (List.mem_of_find?_eq_some hfind)).1
    have hlabel := List.find?_some hfind
    cases hold : before.find? (·.label.isSome) with
    | none => exact List.find?_eq_none.1 hold f hmem hlabel
    | some f' =>
      cases landing with
      | none => cases hland rfl
      | some found' => exact hnone f' found' hold rfl
  · rfl

end Row

namespace Core

variable {c : Core}

theorem listed_without (h : c.Listed) (hkept : ∃ e ∈ c.row.nodes, e.keeps id = true) :
    (c.without id).Listed := by
  rw [without]
  split
  · exact h
  · obtain ⟨e, he, hkeeps⟩ := hkept
    obtain ⟨f, fs, hnodes⟩ :=
      List.exists_cons_of_ne_nil (List.ne_nil_of_mem (List.mem_filter.2 ⟨he, hkeeps⟩))
    simp only [hnodes]
    exact ⟨⟨f, exists_joined_eq_cons f fs⟩, exists_joined_eq_concat f fs⟩

end Core

theorem Knot.target?_without {k : Knot} {found : Connector × Text}
    (hid : Identifier.valid id = true) (h : k.target? = some found) (hname : found.2 ≠ id) :
    (k.without id).target? = some found := by
  obtain ⟨e, he, rfl⟩ := Option.map_eq_some_iff.1 h
  obtain ⟨rest, hnodes⟩ := List.head?_eq_some_iff.1 he
  have hkept : (k.without id).core.row.nodes = e :: rest.filter (·.keeps id) := by
    rw [Knot.without, Core.nodes_without, hnodes,
      List.filter_cons_of_pos ((Token.keeps_iff hid).2 hname)]
  rw [target?, hkept]
  rfl

namespace Strand

variable {s : Strand} {k : Knot} {ks : List Knot} {front front' : Row} {e e' : Token}

/-- No declaration but that of the node stands before the last node of the first group. -/
def FrontBare (id : Text) (s : Strand) : Prop :=
  ∀ e ∈ s.head.row.nodes.dropLast, e.id ≠ id → e.label = none

/-- No label of an arrow holds an arrow, and the first arrow directly behind a label is the same
without the node. -/
structure SameLanding (id : Text) (s : Strand) : Prop where
  plain : ∀ k ∈ s.knots, k.tip.Plain
  landing : (behindLabel (s.without id).row.groups).idxOf true =
      (behindLabel s.row.groups).idxOf true

theorem landing?_without (hid : Identifier.valid id = true) (hsame : s.SameLanding id)
    {found : Connector × Text} (hland : landing? s.row.groups s.knots = some found)
    (hname : found.2 ≠ id) :
    landing? (s.without id).row.groups (s.without id).knots = some found := by
  obtain ⟨k, hk, htarget⟩ := Option.bind_eq_some_iff.1 hland
  have hplace : (s.without id).knots[(behindLabel (s.without id).row.groups).idxOf true]? =
      some (k.without id) := by
    rw [hsame.landing, without, List.getElem?_map, hk]
    rfl
  rw [landing?, hplace, Option.bind_some]
  exact Knot.target?_without hid htarget hname

namespace Tidy

theorem landing?_without_of_none (h : s.Tidy) (hsame : s.SameLanding id)
    (hland : landing? s.row.groups s.knots = none) :
    landing? (s.without id).row.groups (s.without id).knots = none := by
  have hplace : s.knots[(behindLabel s.row.groups).idxOf true]? = none := by
    refine Option.eq_none_iff_forall_ne_some.2 fun k hk => ?_
    obtain ⟨e, rest, hfirst⟩ := (h.knots_listed k (List.mem_of_getElem? hk)).first
    rw [landing?, hk, Option.bind_some, k.target?_eq hfirst] at hland
    cases hland
  rw [landing?, hsame.landing, without, List.getElem?_map, hplace]
  rfl

theorem without (h : s.Tidy) (hkept : ∀ g ∈ s.row.groups, ∃ e ∈ g, e.keeps id = true) :
    (s.without id).Tidy := by
  rw [groups_row, List.forall_mem_cons] at hkept
  have hhead : ∀ e ∈ (s.without id).head.row.nodes, e ∈ s.head.row.nodes := by
    intro e he
    have hmem : e ∈ (s.head.without id).row.nodes := he
    rw [Core.nodes_without] at hmem
    exact (List.mem_filter.1 hmem).1
  refine ⟨sound_without id h.sound, Core.listed_without h.head_listed hkept.1, fun k' hk' => ?_,
    fun e he => h.head_named e (hhead e he), fun e he => h.head_anchored e (hhead e he)⟩
  obtain ⟨k, hk, rfl⟩ := List.mem_map.1 hk'
  exact Core.listed_without (h.knots_listed k hk) (hkept.2 _ (List.mem_map_of_mem hk))

end Tidy

theorem knots_without (hknots : s.knots = k :: ks) :
    (s.without id).knots = k.without id :: ks.map (·.without id) := by
  rw [without, hknots, List.map_cons]

theorem nodes_head_without (hhead : s.head.row = front ++ [.node e])
    (hhead' : (s.without id).head.row = front' ++ [.node e']) :
    front'.nodes ++ [e'] = (front.nodes ++ [e]).filter (·.keeps id) := by
  rw [← Core.nodes_concat hhead, ← Core.nodes_concat hhead']
  exact Core.nodes_without ..

section Knots

variable {next next' : Connector × Text} {source : Text} {found : Connector × Text}
  (hid : Identifier.valid id = true) (h : s.Tidy) (hknots : s.knots = k :: ks)
  (hnext : k.target? = some next) (hnext' : (k.without id).target? = some next')
  (hhead : s.head.row = front ++ [.node e])
  (hhead' : (s.without id).head.row = front' ++ [.node e'])
  (hsource : source ≠ id) (htarget : found.2 ≠ id)

include hid h hknots hnext hnext' hhead hhead' hsource htarget

theorem ends_link?_without_of_frontBare (h' : (s.without id).Tidy) (hbare : s.FrontBare id)
    (hline : '\n' ∉ s.row.written) (hline' : '\n' ∉ (s.without id).row.written)
    (hlink : (Line.link? s.row.written).map (fun (_, l) => l.ends) = some (source, found)) :
    (Line.link? (s.without id).row.written).map (fun (_, l) => l.ends) = some (source, found) := by
  have hfront : ∀ f ∈ front.nodes, f.id ≠ id → f.label = none := by
    intro f hf
    refine hbare f ?_
    rwa [Core.nodes_concat hhead, List.dropLast_concat]
  -- a link from further left would start at a declaration, and only the node that goes is declared
  -- there
  have hsimple : (source, found) = (e.id, next) := by
    rcases h.ends_link?_or hknots hhead hnext hline with heq | ⟨f, hf, hlabel, r, heq⟩
    · exact Option.some.inj (hlink.symm.trans heq)
    · have hname : source = f.id := congrArg Prod.fst (Option.some.inj (hlink.symm.trans heq))
      rw [hfront f hf (hname ▸ hsource)] at hlabel
      cases hlabel
  obtain ⟨rfl, rfl⟩ := Prod.mk.inj hsimple
  have hnodes := nodes_head_without hhead hhead'
  rw [List.filter_append, List.filter_cons_of_pos ((Token.keeps_iff hid).2 hsource),
    List.filter_nil] at hnodes
  obtain ⟨hafter, hlast⟩ := List.append_inj' hnodes rfl
  obtain rfl := (List.cons.inj hlast).1
  obtain rfl := Option.some.inj (hnext'.symm.trans (Knot.target?_without hid hnext htarget))
  rcases h'.ends_link?_or (knots_without hknots) hhead' hnext' hline' with heq | ⟨f, hf, hlabel, -⟩
  · exact heq
  · rw [hafter] at hf
    obtain ⟨hmem, hkeeps⟩ := List.mem_filter.1 hf
    rw [hfront f hmem ((Token.keeps_iff hid).1 hkeeps)] at hlabel
    cases hlabel

theorem linkFrom_without (hsame : s.SameLanding id)
    (hlink : linkFrom front.nodes e.id next (landing? s.row.groups s.knots) = (source, found)) :
    linkFrom front'.nodes e'.id next' (landing? (s.without id).row.groups (s.without id).knots) =
      (source, found) := by
  have hnodes := nodes_head_without hhead hhead'
  unfold linkFrom at hlink
  split at hlink
  · next f r hfind hland =>
    cases hlink
    refine linkFrom_of_declared hnodes hfind ((Token.keeps_iff hid).2 hsource)
      (landing?_without hid hsame hland htarget) fun hlabel => ?_
    rw [groups_row, knots_without hknots, List.map_cons, landing?_cons hhead',
      if_pos hlabel, hnext']
  · next hnone =>
    cases hlink
    obtain rfl := Option.some.inj (hnext'.symm.trans (Knot.target?_without hid hnext htarget))
    exact linkFrom_of_plain hnodes ((Token.keeps_iff hid).2 hsource) hnone
      (h.landing?_without_of_none hsame)

theorem ends_link?_without_of_sameLanding (h' : (s.without id).Tidy) (hsame : s.SameLanding id)
    (hline : '\n' ∉ s.row.written) (hline' : '\n' ∉ (s.without id).row.written)
    (hlink : (Line.link? s.row.written).map (fun (_, l) => l.ends) = some (source, found)) :
    (Line.link? (s.without id).row.written).map (fun (_, l) => l.ends) = some (source, found) := by
  have hplain : ∀ k' ∈ (s.without id).knots, k'.tip.Plain := by
    intro k' hk'
    obtain ⟨old, hold, rfl⟩ := List.mem_map.1 hk'
    exact hsame.plain old hold
  rw [h.ends_link?_eq hknots hhead hnext hline hsame.plain] at hlink
  rw [h'.ends_link?_eq (knots_without hknots) hhead' hnext' hline' hplain,
    linkFrom_without hid h hknots hnext hnext' hhead hhead' hsource htarget hsame
      (Option.some.inj hlink)]

end Knots

/-- The edge of a tidy strand is kept when a node is taken from it that is none of its ends. -/
theorem edgeOn?_without (hid : Identifier.valid id = true) (h : s.Tidy)
    (hkept : ∀ g ∈ s.row.groups, ∃ e ∈ g, e.keeps id = true) (hne : s.knots ≠ [])
    (hspared : s.FrontBare id ∨ s.SameLanding id) (hline : '\n' ∉ s.row.written)
    (hline' : '\n' ∉ (s.without id).row.written) {i : Nat} {e : Edge}
    (he : Buffer.edgeOn? s.row.written i = some e) (hsource : e.source ≠ id)
    (htarget : e.target ≠ id) (i' : Nat) :
    Buffer.edgeOn? (s.without id).row.written i' = some { e with line := i' } := by
  obtain ⟨k, ks, hknots⟩ := List.exists_cons_of_ne_nil hne
  have h' := h.without hkept
  have hmem' : k.without id ∈ (s.without id).knots := knots_without hknots ▸ List.mem_cons_self
  obtain ⟨f, rest, hfirst⟩ := (h.knots_listed k (hknots ▸ List.mem_cons_self)).first
  obtain ⟨f', rest', hfirst'⟩ := (h'.knots_listed _ hmem').first
  obtain ⟨front, last, hhead⟩ := h.head_listed.last
  obtain ⟨front', last', hhead'⟩ := h'.head_listed.last
  have hnext := k.target?_eq hfirst
  have hnext' := (k.without id).target?_eq hfirst'
  rw [Buffer.edgeOn?_eq h.not_isDirective, Option.bind_eq_some_iff] at he
  obtain ⟨⟨source, κ, target⟩, hlink, hedge⟩ := he
  rw [Option.ite_none_left_eq_some, Option.some.injEq] at hedge
  obtain ⟨hkeyword, rfl⟩ := hedge
  have hlinked : (Line.link? (s.without id).row.written).map (fun (_, l) => l.ends) =
      some (source, κ, target) := by
    rcases hspared with hbare | hsame
    · exact ends_link?_without_of_frontBare hid h hknots hnext hnext' hhead hhead' hsource htarget
        h' hbare hline hline' hlink
    · exact ends_link?_without_of_sameLanding hid h hknots hnext hnext' hhead hhead' hsource htarget
        h' hsame hline hline' hlink
  rw [Buffer.edgeOn?_eq h'.not_isDirective, hlinked]
  exact if_neg hkeyword

end Strand
end Chartwright
