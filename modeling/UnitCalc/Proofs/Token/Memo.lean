import Mathlib.Data.Finset.Card
import UnitCalc.Proofs.Token.Spans

namespace UnitCalc

namespace Text

-- Of two boundaries the first leaves a part of the text before the second.
theorem exists_part_of_boundaries {source : String} {start stop : Nat}
    (hstart : IsBoundary source start) (hstop : IsBoundary source stop) (hle : start ≤ stop) :
    ∃ before part after, source.toList = before ++ (part ++ after) ∧
      start = byteSize before ∧ stop = byteSize before + byteSize part := by
  obtain ⟨before, rest, hsplit, rfl⟩ := hstart
  obtain ⟨before', after, hsplit', rfl⟩ := hstop
  obtain ⟨part, hpart, hrest⟩ | ⟨part, hpart, hrest⟩ :=
    List.append_eq_append_iff.mp (hsplit.symm.trans hsplit')
  · exact ⟨before, part, after, by rw [hsplit, hrest], rfl, by rw [hpart, byteSize_append]⟩
  · -- The second boundary cannot come first, unless they are the same.
    have hempty : part = [] := by
      by_contra hne
      have hpos := byteSize_pos hne
      rw [hpart, byteSize_append] at hle
      omega
    subst hempty
    refine ⟨before, [], after, ?_, rfl, ?_⟩
    · rw [hsplit, hrest]
      rfl
    · rw [hpart, List.append_nil]
      rfl

-- Only a span between boundaries has text.
theorem boundaries_of_slice_ne {source : String} {start stop : Nat}
    (h : slice start stop source.toList ≠ []) :
    IsBoundary source start ∧ IsBoundary source stop := by
  unfold slice at h
  split at h
  · exact absurd rfl h
  · rename_i before rest hbefore
    obtain ⟨hsplit, rfl⟩ := append_of_splitAt? hbefore
    split at h
    case isFalse => exact absurd rfl h
    case isTrue hle =>
      cases hpart : splitAt? (stop - byteSize before) rest with
      | none => simp [hpart] at h
      | some parts =>
          obtain ⟨part, after⟩ := parts
          obtain ⟨hrest, hsize⟩ := append_of_splitAt? hpart
          refine ⟨⟨before, rest, hsplit.symm, rfl⟩, ⟨before ++ part, after, ?_, ?_⟩⟩
          · rw [List.append_assoc, hrest, hsplit]
          · rw [byteSize_append, hsize]
            omega

end Text

open Text

namespace Span

variable {s : Span} {source : String}

-- Where a span ends in a source, which may be before the end of the span.
def stopIn (s : Span) (source : String) : Nat :=
  min (s.start + s.length) source.utf8ByteSize

-- Whether a span starts inside a source and splits no character of it.
structure CutsWell (s : Span) (source : String) : Prop where
  start_lt : s.start < source.utf8ByteSize
  start : IsBoundary source s.start
  stop : IsBoundary source (s.stopIn source)

section

variable (hsize : source.utf8ByteSize ≤ maxOffset)
include hsize

-- An end that is too large for an offset is past the source, and so is the largest offset.
theorem min_stop_eq : min s.stop source.utf8ByteSize = s.stopIn source := by
  simp only [stop, stopIn]
  omega

theorem textIn_eq_slice (h : s.start < source.utf8ByteSize) :
    s.textIn source = String.ofList (slice s.start (s.stopIn source) source.toList) := by
  simp only [textIn, if_pos h, min_stop_eq hsize]

theorem bytes_textIn (h : s.CutsWell source) :
    bytes (s.textIn source).toList =
      ((bytes source.toList).take (s.stopIn source)).drop s.start := by
  have hle : s.start ≤ s.stopIn source := Nat.le_min.mpr ⟨Nat.le_add_right _ _, h.start_lt.le⟩
  obtain ⟨before, part, after, hsplit, hstart, hstop⟩ :=
    exists_part_of_boundaries h.start h.stop hle
  rw [textIn_eq_slice hsize h.start_lt, String.toList_ofList, hsplit, hstop, hstart, slice_append,
    bytes_append, bytes_append, ← List.append_assoc, ← length_bytes, ← length_bytes,
    ← List.length_append, List.take_left, List.drop_left]

theorem cutsWell_of_textIn_ne (h : s.textIn source ≠ "") : s.CutsWell source := by
  by_cases hstart : s.start < source.utf8ByteSize
  · rw [textIn_eq_slice hsize hstart, Ne, String.ofList_eq_empty_iff] at h
    obtain ⟨hbefore, hafter⟩ := boundaries_of_slice_ne h
    exact ⟨hstart, hbefore, hafter⟩
  · simp [textIn, hstart] at h

end

end Span

namespace SpanMemo

-- What a source is asked for the text under a span by: to cut it out, or to look it up in the memo.
inductive Request where
  | slice (s : Span)
  | get (s : Span)

-- The span that a request looks up in the memo, if it does.
def Request.lookedUp? : Request → Option Span
  | .slice _ => none
  | .get s => some s

def answer (m : SpanMemo) : Request → String × SpanMemo
  | .slice s => (s.textIn m.source, m)
  | .get s => m.get s

-- The memo after some requests in order.
def afterAll (m : SpanMemo) (requests : List Request) : SpanMemo :=
  requests.foldl (fun m request => (m.answer request).2) m

-- What a memo holds once some spans have been looked up: each of them that has text, once, with the
-- text that it has in the source.
structure Remembers (source : String) (lookedUp : List Span) (m : SpanMemo) : Prop where
  source_eq : m.source = source
  texts : ∀ e ∈ m.texts, e.2 = e.1.textIn source
  nodup : (m.texts.map Prod.fst).Nodup
  spans : ∀ s, s ∈ m.texts.map Prod.fst ↔ s ∈ lookedUp ∧ s.textIn source ≠ ""

variable {source : String} {lookedUp : List Span} {m : SpanMemo}

theorem remembers_ofSource (source : String) : Remembers source [] (ofSource source) where
  source_eq := rfl
  texts e he := absurd he List.not_mem_nil
  nodup := List.nodup_nil
  spans s := by simp [ofSource]

-- A look-up gives the text in the source. It adds the span unless that is there or has no text.
theorem Remembers.get_cases (h : Remembers source lookedUp m) (s : Span) :
    (s ∈ m.texts.map Prod.fst ∨ s.textIn source = "") ∧ m.get s = (s.textIn source, m) ∨
    (s ∉ m.texts.map Prod.fst ∧ s.textIn source ≠ "") ∧
      m.get s = (s.textIn source, { m with texts := (s, s.textIn source) :: m.texts }) := by
  cases hlookup : m.texts.lookup s with
  | some text =>
      obtain ⟨before, after, htexts, -⟩ := List.lookup_eq_some_iff.mp hlookup
      have hmem : (s, text) ∈ m.texts := by simp [htexts]
      have htext : text = s.textIn source := h.texts _ hmem
      refine .inl ⟨.inl (List.mem_map_of_mem hmem), ?_⟩
      simp only [SpanMemo.get, hlookup, htext]
  | none =>
      have hnew : s ∉ m.texts.map Prod.fst := by
        intro hmem
        obtain ⟨e, he, rfl⟩ := List.mem_map.mp hmem
        simpa using List.lookup_eq_none_iff.mp hlookup e he
      by_cases htext : s.textIn source = ""
      · refine .inl ⟨.inr htext, ?_⟩
        simp [SpanMemo.get, hlookup, h.source_eq, htext]
      · refine .inr ⟨⟨hnew, htext⟩, ?_⟩
        simp [SpanMemo.get, hlookup, h.source_eq, htext]

theorem Remembers.fst_get (h : Remembers source lookedUp m) (s : Span) :
    (m.get s).1 = s.textIn source := by
  rcases h.get_cases s with ⟨-, hget⟩ | ⟨-, hget⟩ <;> rw [hget]

-- A span that is in the memo already, or has no text, changes nothing.
theorem Remembers.again (h : Remembers source lookedUp m) {s : Span}
    (hs : s ∈ m.texts.map Prod.fst ∨ s.textIn source = "") :
    Remembers source (lookedUp ++ [s]) m where
  source_eq := h.source_eq
  texts := h.texts
  nodup := h.nodup
  spans s' := by
    rw [h.spans, List.mem_append, List.mem_singleton]
    constructor
    · rintro ⟨hmem, htext⟩
      exact ⟨.inl hmem, htext⟩
    · rintro ⟨hmem | rfl, htext⟩
      · exact ⟨hmem, htext⟩
      · exact (h.spans s').mp (hs.resolve_right htext)

theorem Remembers.new (h : Remembers source lookedUp m) {s : Span}
    (hs : s ∉ m.texts.map Prod.fst) (htext : s.textIn source ≠ "") :
    Remembers source (lookedUp ++ [s]) { m with texts := (s, s.textIn source) :: m.texts } where
  source_eq := h.source_eq
  texts e he := by
    rcases List.mem_cons.mp he with rfl | he
    · rfl
    · exact h.texts e he
  nodup := List.nodup_cons.mpr ⟨hs, h.nodup⟩
  spans s' := by
    rw [List.map_cons, List.mem_cons, h.spans, List.mem_append, List.mem_singleton]
    constructor
    · rintro (rfl | ⟨hmem, htext'⟩)
      · exact ⟨.inr rfl, htext⟩
      · exact ⟨.inl hmem, htext'⟩
    · rintro ⟨hmem | rfl, htext'⟩
      · exact .inr ⟨hmem, htext'⟩
      · exact .inl rfl

theorem Remembers.get (h : Remembers source lookedUp m) (s : Span) :
    Remembers source (lookedUp ++ [s]) (m.get s).2 := by
  rcases h.get_cases s with ⟨hs, hget⟩ | ⟨⟨hnew, htext⟩, hget⟩
  · rw [hget]
    exact h.again hs
  · rw [hget]
    exact h.new hnew htext

theorem Remembers.answer (h : Remembers source lookedUp m) (request : Request) :
    Remembers source (lookedUp ++ request.lookedUp?.toList) (m.answer request).2 := by
  cases request with
  | slice s => simpa [SpanMemo.answer, Request.lookedUp?] using h
  | get s => exact h.get s

theorem Remembers.afterAll (h : Remembers source lookedUp m) (requests : List Request) :
    Remembers source (lookedUp ++ requests.filterMap Request.lookedUp?) (m.afterAll requests) := by
  induction requests generalizing lookedUp m with
  | nil =>
      rw [List.filterMap_nil, List.append_nil]
      exact h
  | cons request requests ih =>
      have hrest := ih (h.answer request)
      rw [List.append_assoc] at hrest
      cases request <;> exact hrest

theorem Remembers.count_eq (h : Remembers source lookedUp m) :
    m.count = {s ∈ lookedUp.toFinset | s.textIn source ≠ ""}.card := by
  have hspans : (m.texts.map Prod.fst).toFinset =
      {s ∈ lookedUp.toFinset | s.textIn source ≠ ""} := by
    ext s
    simp only [List.mem_toFinset, Finset.mem_filter, h.spans]
  rw [← hspans, List.toFinset_card_of_nodup h.nodup, List.length_map]
  rfl

-- Whatever a source has been asked for, a look-up in the memo gives what is cut out of the source:
-- the bytes from the start of the span to its end or to that of the source, where the span starts
-- inside the source and neither place splits a character, and no text otherwise. The memo counts
-- the spans that have been looked up and have text, each once.
theorem get_transparent {source : String} (hsize : source.utf8ByteSize ≤ Span.maxOffset)
    (requests : List Request) :
    let m := (ofSource source).afterAll requests
    (∀ s : Span, (m.answer (.get s)).1 = (m.answer (.slice s)).1 ∧
      (m.answer (.slice s)).1 = s.textIn source ∧
      (s.CutsWell source → bytes (m.answer (.get s)).1.toList =
        ((bytes source.toList).take (s.stopIn source)).drop s.start) ∧
      (¬ s.CutsWell source → (m.answer (.get s)).1 = "")) ∧
    m.count =
      {s ∈ (requests.filterMap Request.lookedUp?).toFinset | s.textIn source ≠ ""}.card := by
  intro m
  have hm : Remembers source (requests.filterMap Request.lookedUp?) m :=
    (remembers_ofSource source).afterAll requests
  refine ⟨fun s => ?_, hm.count_eq⟩
  have hget : (m.answer (.get s)).1 = s.textIn source := hm.fst_get s
  have hslice : (m.answer (.slice s)).1 = s.textIn source := by
    rw [SpanMemo.answer, hm.source_eq]
  rw [hget, hslice]
  refine ⟨rfl, rfl, Span.bytes_textIn hsize, fun hcut => ?_⟩
  by_contra htext
  exact hcut (Span.cutsWell_of_textIn_ne hsize htext)

theorem get_transparent_metre :
    "µm".utf8ByteSize ≤ Span.maxOffset ∧
    let m := (ofSource "µm").afterAll
      [.get ⟨0, 2⟩, .get ⟨0, Span.maxOffset⟩, .slice ⟨2, 1⟩, .get ⟨1, 1⟩, .get ⟨0, 2⟩]
    (m.answer (.get ⟨0, Span.maxOffset⟩)).1 = "µm" ∧ (m.answer (.get ⟨1, 1⟩)).1 = "" ∧
      m.count = 2 := by
  have hsize : "µm".utf8ByteSize ≤ Span.maxOffset := by decide
  obtain ⟨hanswers, hcount⟩ := get_transparent hsize
    [.get ⟨0, 2⟩, .get ⟨0, Span.maxOffset⟩, .slice ⟨2, 1⟩, .get ⟨1, 1⟩, .get ⟨0, 2⟩]
  refine ⟨hsize, ?_, ?_, ?_⟩
  · obtain ⟨hsame, hslice, -, -⟩ := hanswers ⟨0, Span.maxOffset⟩
    rw [hsame, hslice]
    decide
  · obtain ⟨hsame, hslice, -, -⟩ := hanswers ⟨1, 1⟩
    rw [hsame, hslice]
    decide
  · rw [hcount]
    decide

end SpanMemo

end UnitCalc
