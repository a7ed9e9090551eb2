import UnitCalc.Proofs.Line.Correctness
import UnitCalc.Proofs.Line.Refusals
import UnitCalc.Proofs.Token.Spans

namespace UnitCalc

-- A name in an expression, with its place in the source.
structure Leaf where
  symbol : String
  span : Span

namespace UnitExpr

-- From left to right.
def placedLeaves : UnitExpr → List Leaf
  | name symbol span => [⟨symbol, span⟩]
  | mul left right => left.placedLeaves ++ right.placedLeaves
  | div left right => left.placedLeaves ++ right.placedLeaves
  | pow base _ => base.placedLeaves
  | group inner => inner.placedLeaves

-- An expression and all that it is made of.
def parts : UnitExpr → List UnitExpr
  | name symbol span => [name symbol span]
  | mul left right => mul left right :: (left.parts ++ right.parts)
  | div left right => div left right :: (left.parts ++ right.parts)
  | pow base exponent => pow base exponent :: base.parts
  | group inner => group inner :: inner.parts

theorem placedLeaves_sublist {e part : UnitExpr} (h : part ∈ e.parts) :
    part.placedLeaves.Sublist e.placedLeaves := by
  have hoperands {left right : UnitExpr}
      (hleft : part ∈ left.parts → part.placedLeaves.Sublist left.placedLeaves)
      (hright : part ∈ right.parts → part.placedLeaves.Sublist right.placedLeaves)
      (h : part ∈ left.parts ++ right.parts) :
      part.placedLeaves.Sublist (left.placedLeaves ++ right.placedLeaves) := by
    rcases List.mem_append.mp h with h | h
    · exact (hleft h).trans (List.sublist_append_left _ _)
    · exact (hright h).trans (List.sublist_append_right _ _)
  induction e with
  | name symbol span =>
      obtain rfl := List.mem_singleton.mp h
      exact List.Sublist.refl _
  | mul left right ihl ihr | div left right ihl ihr =>
      rcases List.mem_cons.mp h with rfl | h
      · exact List.Sublist.refl _
      · exact hoperands ihl ihr h
  | pow base exponent ih | group inner ih =>
      rcases List.mem_cons.mp h with rfl | h
      · exact List.Sublist.refl _
      · exact ih h

-- Whether an expression goes from the start of its first leaf to the end of its last.
def SpansLeaves (e : UnitExpr) : Prop :=
  ∃ first last, e.placedLeaves.head? = some first ∧ e.placedLeaves.getLast? = some last ∧
    e.span.start = first.span.start ∧ e.span.stop = last.span.stop

end UnitExpr

-- Whether no leaf is empty, none goes past the largest offset, and each ends before the next.
structure Ordered (ls : List Leaf) : Prop where
  bounds : ∀ l ∈ ls, l.span.start < l.span.stop ∧ l.span.stop = l.span.start + l.span.length
  apart : ls.Pairwise fun a b => a.span.stop ≤ b.span.start

namespace Ordered

variable {ls ms : List Leaf}

theorem sublist (h : Ordered ls) (hsub : ms.Sublist ls) : Ordered ms where
  bounds l hl := h.bounds l (hsub.subset hl)
  apart := h.apart.sublist hsub

end Ordered

namespace UnitExpr

variable {e left right : UnitExpr}

-- What goes with it by induction: the span is not empty, and its end is an offset.
structure SpansWell (e : UnitExpr) : Prop where
  leaves : e.SpansLeaves
  lt : e.span.start < e.span.stop
  stop_eq : e.span.stop = e.span.start + e.span.length

theorem spansWell_join {whole : UnitExpr} (hleft : left.SpansWell) (hright : right.SpansWell)
    (hleaves : whole.placedLeaves = left.placedLeaves ++ right.placedLeaves)
    (hspan : whole.span = left.span.join right.span) (hordered : Ordered whole.placedLeaves) :
    whole.SpansWell := by
  obtain ⟨⟨first, mid, hfirst, hmid, hstart, hmidStop⟩, hlt, -⟩ := hleft
  obtain ⟨⟨mid', last, hmid', hlast, hmidStart, hstop⟩, hlt', -⟩ := hright
  have hapart := hordered.apart
  rw [hleaves, List.pairwise_append] at hapart
  have hbetween := hapart.2.2 mid (List.mem_of_getLast? hmid) mid' (List.mem_of_head? hmid')
  have hjoin : whole.span = ⟨left.span.start, right.span.stop - left.span.start⟩ :=
    hspan.trans (Span.join_of_le (by omega) (by omega))
  have hend : whole.span.start + whole.span.length = right.span.stop := by
    rw [hjoin]
    simp only
    omega
  have hmax : right.span.stop ≤ Span.maxOffset := Nat.min_le_right _ _
  have hwhole : whole.span.stop = right.span.stop := by
    rw [Span.stop_of_le (by omega), hend]
  have hwholeStart : whole.span.start = left.span.start := by rw [hjoin]
  refine ⟨⟨first, last, ?_, ?_, ?_, ?_⟩, ?_, ?_⟩
  · rw [hleaves, List.head?_append, hfirst, Option.some_or]
  · rw [hleaves, List.getLast?_append, hlast, Option.some_or]
  · rw [hwholeStart, hstart]
  · rw [hwhole, hstop]
  · omega
  · rw [hwhole, hend]

theorem spansWell_of_ordered (h : Ordered e.placedLeaves) : e.SpansWell := by
  induction e with
  | name symbol span =>
      obtain ⟨hlt, hstop⟩ := h.bounds ⟨symbol, span⟩ (List.mem_singleton_self _)
      exact ⟨⟨⟨symbol, span⟩, ⟨symbol, span⟩, rfl, rfl, rfl, rfl⟩, hlt, hstop⟩
  | mul left right ihl ihr | div left right ihl ihr =>
      have hl := ihl (h.sublist (List.sublist_append_left _ _))
      have hr := ihr (h.sublist (List.sublist_append_right _ _))
      exact spansWell_join hl hr rfl rfl h
  | pow base exponent ih | group inner ih =>
      obtain ⟨hleaves, hlt, hstop⟩ := ih h
      exact ⟨hleaves, hlt, hstop⟩

theorem spans_of_ordered {source : String} (h : Ordered e.placedLeaves)
    (hleaves : ∀ l ∈ e.placedLeaves, l.span.LiesIn source) :
    e.SpansLeaves ∧ e.span.LiesIn source := by
  obtain ⟨hspans, -, hend⟩ := spansWell_of_ordered h
  refine ⟨hspans, ?_, ?_⟩
  all_goals obtain ⟨first, last, hfirst, hlast, hstart, hstop⟩ := hspans
  · rw [hstart]
    exact (hleaves first (List.mem_of_head? hfirst)).1
  · have hmem := List.mem_of_getLast? hlast
    rw [← hend, hstop, (h.bounds last hmem).2]
    exact (hleaves last hmem).2

end UnitExpr

-- Whether some leaves are those of names among some words, in the order of these.
def ReadsNames (ws : List Word) (ls : List Leaf) : Prop :=
  ∃ names : List Word, names.Sublist ws ∧ (∀ w ∈ names, w.IsName) ∧
    ls = names.flatMap fun w => w.leaf.placedLeaves

namespace ReadsNames

variable {ws vs : List Word} {ls ms : List Leaf}

theorem nil : ReadsNames ws [] :=
  ⟨[], List.nil_sublist ws, List.forall_mem_nil _, rfl⟩

theorem name {w : Word} (h : w.IsName) : ReadsNames [w] w.leaf.placedLeaves :=
  ⟨[w], List.Sublist.refl _, List.forall_mem_singleton.mpr h, (List.flatMap_singleton _ _).symm⟩

theorem append (h : ReadsNames ws ls) (h' : ReadsNames vs ms) :
    ReadsNames (ws ++ vs) (ls ++ ms) := by
  obtain ⟨names, hsub, hnames, rfl⟩ := h
  obtain ⟨names', hsub', hnames', rfl⟩ := h'
  exact ⟨names ++ names', hsub.append hsub', List.forall_mem_append.mpr ⟨hnames, hnames'⟩,
    List.flatMap_append.symm⟩

theorem mono (h : ReadsNames ws ls) (hsub : ws.Sublist vs) : ReadsNames vs ls := by
  obtain ⟨names, hsub', hnames, rfl⟩ := h
  exact ⟨names, hsub'.trans hsub, hnames, rfl⟩

end ReadsNames

-- The expressions of a quantity: its unit and its target.
def Quantity.trees (q : Quantity) : List UnitExpr :=
  q.unit.toList ++ q.target.toList

namespace Grammar

variable {ws : List Word}

theorem Phrase.readsNames {k : Category} {e : UnitExpr} (h : Phrase k ws e) :
    ReadsNames ws e.placedLeaves := by
  induction h with
  | name hw => exact .name hw
  | group _ _ _ ih =>
      exact ih.mono ((List.sublist_append_left _ _).trans (List.sublist_cons_self _ _))
  | atom _ ih | term _ ih => exact ih
  | power _ _ _ ih => exact ih.mono (List.sublist_append_left _ _)
  | times _ _ _ ihe ihf | divide _ _ _ ihe ihf =>
      exact ihe.append (ihf.mono (List.sublist_cons_self _ _))
  | beside _ _ ihe ihf => exact ihe.append ihf

theorem OptionalUnit.readsNames {unit : Option UnitExpr} (h : OptionalUnit ws unit) :
    ReadsNames ws (unit.toList.flatMap UnitExpr.placedLeaves) := by
  cases h with
  | absent => exact .nil
  | present h => simpa using h.readsNames

theorem OptionalTarget.readsNames {target : Option UnitExpr} (h : OptionalTarget ws target) :
    ReadsNames ws (target.toList.flatMap UnitExpr.placedLeaves) := by
  cases h with
  | absent => exact .nil
  | present _ h => simpa using h.readsNames.mono (List.sublist_cons_self _ _)

theorem Line.readsNames {q : Quantity} (h : Line ws q) :
    ReadsNames ws (q.trees.flatMap UnitExpr.placedLeaves) := by
  obtain ⟨-, hunit, htarget⟩ := h
  rw [Quantity.trees, List.flatMap_append]
  exact (hunit.readsNames.mono (List.sublist_append_right _ _)).append htarget.readsNames

-- The leaves of the lines are the names among the words, in their order.
theorem Script.readsNames {qs : List Quantity} (h : Script ws qs) :
    ReadsNames ws ((qs.flatMap Quantity.trees).flatMap UnitExpr.placedLeaves) := by
  induction h with
  | nil => exact .nil
  | blank _ _ ih => exact ih.mono (List.sublist_cons_self _ _)
  | last hq => simpa using hq.readsNames
  | cons hq _ _ ih =>
      rw [List.flatMap_cons, List.flatMap_append]
      exact hq.readsNames.append (ih.mono (List.sublist_cons_self _ _))

end Grammar

-- What the leaf of a name is: the text at its place, which goes from the start of a token to the
-- end of one.
structure Word.Places (w : Word) (source : String) (l : Leaf) : Prop where
  leaf : w.leaf.placedLeaves = [l]
  covers : l.span.Covers l.symbol source
  pos : 0 < l.span.length
  start : ∃ t ∈ w, l.span.start = t.start
  stop : ∃ t ∈ w, l.span.stop = t.span.stop

section

variable {o : LexOptions} {source : String} {ts : List Token}

theorem text_ne_empty_of_isNamePiece {t : Token} (h : t ∈ lex o source)
    (hpiece : t.isNamePiece = true) : t.text ≠ "" := by
  rcases Token.kind_of_isNamePiece hpiece with hk | hk
  all_goals exact text_ne_empty_of_mem_lex h (by simp [hk]) (by rw [hk]; rfl)

-- The place of a name grows by that of each piece.
theorem covers_foldl {symbol : String} {span : Span} {last : Token}
    (hsize : source.utf8ByteSize ≤ Span.maxOffset) (h : span.Covers symbol source)
    (hstop : span.stop = last.span.stop) (htokens : ∀ u ∈ ts, u.span.Covers u.text source)
    (hchain : (last :: ts).IsChain fun a b => a.touches b) :
    let whole := ts.foldl (fun span u => (⟨span.start, u.span.stop - span.start⟩ : Span)) span
    whole.Covers (ts.foldl (fun symbol u => symbol ++ u.text) symbol) source ∧
      whole.start = span.start ∧ span.length ≤ whole.length ∧
      whole.stop = ((last :: ts).getLast (List.cons_ne_nil _ _)).span.stop := by
  induction ts generalizing symbol span last with
  | nil => exact ⟨h, rfl, Nat.le_refl _, hstop⟩
  | cons u ts ih =>
      obtain ⟨hu, htokens⟩ := List.forall_mem_cons.mp htokens
      obtain ⟨htouch, hchain⟩ := List.isChain_cons_cons.mp hchain
      simp only [Token.touches, Bool.and_eq_true, beq_iff_eq] at htouch
      have hend := h.stop_eq hsize
      have hustop := hu.stop_eq hsize
      have hstart : u.span.start = span.start + span.length := by
        rw [← hend, hstop]
        exact htouch.2
      have hlength : u.span.stop - span.start = span.length + u.span.length := by omega
      have hglued := h.append hu hstart
      rw [← hlength] at hglued
      have hstop' : (⟨span.start, u.span.stop - span.start⟩ : Span).stop = u.span.stop := by
        rw [hglued.stop_eq hsize]
        simp only
        omega
      obtain ⟨hcovers, hfirst, hgrows, hlast⟩ := ih hglued hstop' htokens hchain
      have hle : span.length ≤ u.span.stop - span.start := by omega
      refine ⟨hcovers, hfirst, hle.trans hgrows, ?_⟩
      rw [List.foldl_cons, hlast, List.getLast_cons (List.cons_ne_nil u ts)]

theorem exists_places {w : Word} (hsize : source.utf8ByteSize ≤ Span.maxOffset)
    (hname : w.IsName) (hchain : w.IsChain fun a b => a.touches b)
    (hmem : ∀ t ∈ w, t ∈ lex o source) : ∃ l, w.Places source l := by
  obtain ⟨t, ts, rfl⟩ := List.exists_cons_of_ne_nil hname.1
  obtain ⟨ht, hts⟩ := List.forall_mem_cons.mp hmem
  have htext := text_ne_empty_of_isNamePiece ht (hname.2 t List.mem_cons_self)
  have hpos : 0 < t.span.length := Nat.pos_of_ne_zero fun hzero =>
    htext (String.utf8ByteSize_eq_zero_iff.mp hzero)
  obtain ⟨hcovers, hstart, hgrows, hstop⟩ := covers_foldl hsize (covers_of_mem_lex ht) rfl
    (fun u hu => covers_of_mem_lex (hts u hu)) hchain
  exact ⟨_, rfl, hcovers, hpos.trans_le hgrows, ⟨t, List.mem_cons_self, hstart⟩, _,
    List.getLast_mem _, hstop⟩

-- The leaves of names come in the order of the words, and no two overlap.
theorem ordered_of_names {names : List Word} (hsize : source.utf8ByteSize ≤ Span.maxOffset)
    (hsub : ts.Sublist (lex o source)) (hnames : names.Sublist (words ts))
    (hall : ∀ w ∈ names, w.IsName) :
    let leaves := names.flatMap fun w => w.leaf.placedLeaves
    Ordered leaves ∧ ∀ l ∈ leaves, l.span.Covers l.symbol source := by
  have hflatten : (words ts).flatten = ts := List.flatten_splitBy _ _
  have hplaces : ∀ w ∈ names, ∃ l, w.Places source l := by
    intro w hw
    have hword := hnames.subset hw
    have hmem : ∀ t ∈ w, t ∈ lex o source := by
      intro t ht
      have ht' := List.mem_flatten.mpr ⟨w, hword, ht⟩
      exact hsub.subset (hflatten ▸ ht')
    exact exists_places hsize (hall w hw) (List.isChain_of_mem_splitBy hword) hmem
  have hleaf : ∀ l ∈ names.flatMap fun w => w.leaf.placedLeaves,
      ∃ w : Word, w.Places source l := by
    intro l hl
    obtain ⟨w, hw, hl⟩ := List.mem_flatMap.mp hl
    obtain ⟨l', hplaces⟩ := hplaces w hw
    rw [hplaces.leaf, List.mem_singleton] at hl
    exact ⟨w, hl ▸ hplaces⟩
  have hwords : names.Pairwise fun v w => ∀ a ∈ v, ∀ b ∈ w, a.span.stop ≤ b.start := by
    have htokens : (words ts).flatten.Pairwise fun a b => a.span.stop ≤ b.start := by
      rw [hflatten]
      exact (Cursor.pairwise_stop_tokens o _).sublist hsub
    exact (List.pairwise_flatten.mp htokens).2.sublist hnames
  refine ⟨⟨fun l hl => ?_, List.pairwise_flatMap.mpr ⟨fun w hw => ?_, ?_⟩⟩, fun l hl => ?_⟩
  · obtain ⟨w, hplaces⟩ := hleaf l hl
    have hpos := hplaces.pos
    have hstop := hplaces.covers.stop_eq hsize
    exact ⟨by omega, hstop⟩
  · obtain ⟨l, hplaces⟩ := hplaces w hw
    rw [hplaces.leaf]
    exact List.pairwise_singleton _ _
  · refine hwords.imp_of_mem fun {v w} hv hw hvw => ?_
    obtain ⟨a, ha⟩ := hplaces v hv
    obtain ⟨b, hb⟩ := hplaces w hw
    obtain ⟨t, ht, hstop⟩ := ha.stop
    obtain ⟨u, hu, hstart⟩ := hb.start
    simpa [ha.leaf, hb.leaf, hstop, hstart] using hvw t ht u hu
  · obtain ⟨w, hplaces⟩ := hleaf l hl
    exact hplaces.covers

-- So do those of all the lines.
theorem ordered_of_parseLines {qs : List Quantity}
    (hsize : source.utf8ByteSize ≤ Span.maxOffset) (h : parseLines o source = .ok qs) :
    let leaves := (qs.flatMap Quantity.trees).flatMap UnitExpr.placedLeaves
    Ordered leaves ∧ ∀ l ∈ leaves, l.span.Covers l.symbol source := by
  obtain ⟨ts, last, hlex, hts, hlast, -⟩ := (Cursor.ofText source).exists_tokens_eq_append o
  have hscript := (parseLines_eq_ok_iff_script hlex hts hlast qs).mp h
  have hsub : (significant ts).Sublist (lex o source) := by
    rw [lex, hlex]
    exact (significant_sublist ts).trans (List.sublist_append_left _ _)
  obtain ⟨names, hnames, hall, hleaves⟩ := hscript.readsNames
  rw [hleaves]
  exact ordered_of_names hsize hsub hnames hall

end

-- Whatever a token is refused for, the error is labelled with its place.
theorem Stage.exists_label_of_refuses {s : Stage} {t : Token} {e : ParseError}
    (h : s.Refuses t e) : ∃ text, e.report.labels = [⟨text, t.span.start, t.span.length⟩] := by
  cases h with
  | fault hfault =>
      obtain ⟨f, -, rfl⟩ := Option.map_eq_some_iff.mp hfault
      exact ⟨_, rfl⟩
  | _ => exact ⟨_, rfl⟩

-- Every span that the parser gives lies in the source. The leaves of the lines, in a line those of
-- the unit before those of the target, come one after the other and are not empty, and the symbol
-- of each is the text under its span. Every expression goes from the start of its first leaf to the
-- end of its last. An error has one label, which lies in the source as well.
theorem places_in_source (o : LexOptions) {source : String}
    (hsize : source.utf8ByteSize ≤ Span.maxOffset) :
    (∀ qs, parseLines o source = .ok qs →
      let trees := qs.flatMap Quantity.trees
      let leaves := trees.flatMap UnitExpr.placedLeaves
      (∀ l ∈ leaves, 0 < l.span.length ∧ l.span.LiesIn source ∧ l.span.textIn source = l.symbol) ∧
      leaves.Pairwise (fun a b => a.span.start < b.span.start ∧ a.span.stop ≤ b.span.start) ∧
      ∀ tree ∈ trees, ∀ e ∈ tree.parts, e.SpansLeaves ∧ e.span.LiesIn source) ∧
    ∀ e, parseLines o source = .error e →
      ∃ label, e.report.labels = [label] ∧
        (⟨label.offset, label.length⟩ : Span).LiesIn source := by
  constructor
  · intro qs h trees leaves
    obtain ⟨hordered, hcovers⟩ := ordered_of_parseLines hsize h
    refine ⟨fun l hl => ?_, ?_, ?_⟩
    · obtain ⟨hlt, hstop⟩ := hordered.bounds l hl
      exact ⟨by omega, (hcovers l hl).liesIn, (hcovers l hl).textIn hsize⟩
    · refine hordered.apart.imp_of_mem fun {a b} ha _ hab => ?_
      exact ⟨(hordered.bounds a ha).1.trans_le hab, hab⟩
    · intro tree htree e he
      have hsub : e.placedLeaves.Sublist leaves :=
        (UnitExpr.placedLeaves_sublist he).trans
          (List.sublist_flatten_of_mem (List.mem_map_of_mem htree))
      exact UnitExpr.spans_of_ordered (hordered.sublist hsub) fun l hl =>
        (hcovers l (hsub.subset hl)).liesIn
  · intro e h
    obtain ⟨before, t, after, s, -, hmem, -, hrefuses⟩ := exists_refuses_of_parseLines h
    obtain ⟨text, hlabels⟩ := Stage.exists_label_of_refuses hrefuses
    exact ⟨_, hlabels, (covers_of_mem_lex hmem).liesIn⟩

theorem places_in_source_micrometre :
    "2 kN µm".utf8ByteSize ≤ Span.maxOffset ∧
      parseLines {} "2 kN µm" =
        .ok [⟨2, some (.mul (.name "kN" ⟨2, 2⟩) (.name "µm" ⟨5, 3⟩)), none⟩] ∧
      (⟨5, 3⟩ : Span).LiesIn "2 kN µm" ∧ (⟨5, 3⟩ : Span).textIn "2 kN µm" = "µm" := by
  have hsize : "2 kN µm".utf8ByteSize ≤ Span.maxOffset := by decide
  have hparse : parseLines {} "2 kN µm" =
      .ok [⟨2, some (.mul (.name "kN" ⟨2, 2⟩) (.name "µm" ⟨5, 3⟩)), none⟩] := by
    decide +kernel
  obtain ⟨hleaves, -, -⟩ := (places_in_source {} hsize).1 _ hparse
  obtain ⟨-, hin, htext⟩ := hleaves ⟨"µm", ⟨5, 3⟩⟩ (by simp [Quantity.trees, UnitExpr.placedLeaves])
  exact ⟨hsize, hparse, hin, htext⟩

end UnitCalc
