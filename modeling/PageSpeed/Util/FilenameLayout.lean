import PageSpeed.Util.UrlToFilenameEncoder
import Mathlib.Data.List.Chain

/-!
The names that a URL is laid out in, and that they give the URL back.
-/

namespace PageSpeed.UrlToFilenameEncoder

structure Name (piece : GoogleString) : Prop where
  slash : 47 ∉ piece
  nonempty : piece ≠ []
  dot : piece ≠ ascii "."
  dots : piece ≠ ascii ".."
  length : piece.length ≤ kMaximumSubdirectoryLength

inductive Layout : GoogleString → GoogleString → Prop where
  | nil : Layout [] []
  | cons {piece out v w : GoogleString} : Name piece → piece.getLast? ≠ some 44 →
      Reads .kStart (piece ++ [47]) .kStart v → Layout out w → Layout (piece ++ 47 :: out) (v ++ w)

variable {piece out s v w : GoogleString}

theorem eq_of_escaped_eq {v w : GoogleString} (h : escaped v = w) (hw : Reads .kStart w .kStart w) : v = w := by
  have hread := reads_escaped v []
  have hread' := hw []
  rw [List.append_nil] at hread hread'
  rw [h, hread'] at hread
  have heq := congrArg Prod.fst hread
  simpa [decodeFrom] using heq.symm

theorem reads_dot : Reads .kStart (ascii ".") .kStart (ascii ".") := Reads.single rfl

theorem reads_dots : Reads .kStart (ascii "..") .kStart (ascii "..") := reads_dot.append reads_dot

theorem appendSegment_dots {v : GoogleString} (h : escaped v = ascii "." ∨ escaped v = ascii "..") :
    appendSegment (escaped v) = (kEscapeChar :: v, []) ∧ Name (kEscapeChar :: v) ∧
      (kEscapeChar :: v).getLast? ≠ some 44 ∧ Reads .kStart (kEscapeChar :: v ++ [47]) .kStart (v ++ [47]) := by
  have hescape : step .kStart kEscapeChar = some (.kEscape, []) := rfl
  have hdot : step .kEscape 46 = some (.kEscapeDot, [46]) := rfl
  have hnext : ∀ c, step .kEscapeDot c = some (.kStart, [c]) := fun _ => rfl
  have hslash : Reads .kStart [47] .kStart [47] := Reads.single rfl
  refine ⟨?_, ?_⟩
  · rw [appendSegment, if_pos h]
    rcases h with h | h
    · rw [h, eq_of_escaped_eq h reads_dot]
    · rw [h, eq_of_escaped_eq h reads_dots]
  · rcases h with h | h
    · rw [eq_of_escaped_eq h reads_dot]
      refine ⟨⟨by decide, by decide, by decide, by decide, by decide⟩, by decide, ?_⟩
      have hread := Reads.cons hescape (Reads.cons hdot (Reads.single (hnext 47)))
      exact hread
    · rw [eq_of_escaped_eq h reads_dots]
      refine ⟨⟨by decide, by decide, by decide, by decide, by decide⟩, by decide, ?_⟩
      have hread := Reads.cons hescape (Reads.cons hdot (Reads.cons (hnext 46) hslash))
      exact hread

theorem Layout.whole {v : GoogleString} (hv : v ≠ []) (hle : (escaped v).length ≤ kMaximumSubdirectoryLength)
    (h : Layout out w) : Layout ((appendSegment (escaped v)).1 ++ 47 :: out) (v ++ 47 :: w) := by
  rw [List.append_cons v]
  by_cases hdots : escaped v = ascii "." ∨ escaped v = ascii ".."
  · obtain ⟨heq, hname, hlast, hreads⟩ := appendSegment_dots hdots
    rw [heq]
    exact Layout.cons hname hlast hreads h
  · have heq : appendSegment (escaped v) = (escaped v, []) := by
      rw [appendSegment, if_neg hdots, if_neg (Nat.not_lt.mpr hle)]
    obtain ⟨hdot, hdots⟩ := not_or.mp hdots
    have hname : Name (escaped v) := ⟨slash_not_mem_escaped v, mt escaped_eq_nil hv, hdot, hdots, hle⟩
    have hslash : step .kStart 47 = some (.kStart, [47]) := rfl
    rw [heq]
    exact Layout.cons hname (getLast_escaped v) ((reads_escaped v).append (Reads.single hslash)) h

theorem Layout.append {out' w' : GoogleString} (h : Layout out w) (h' : Layout out' w') : Layout (out ++ out') (w ++ w') := by
  induction h with
  | nil => exact h'
  | cons hname hlast hreads _ ih =>
    rw [List.append_assoc, List.append_assoc, List.cons_append]
    exact Layout.cons hname hlast hreads ih

theorem Layout.reads (h : Layout out w) : Reads .kStart out .kStart w := by
  induction h with
  | nil => exact Reads.nil _
  | cons _ _ hreads _ ih =>
    rw [List.append_cons]
    exact hreads.append ih

theorem Layout.names (h : Layout out w) (s : GoogleString) :
    ∀ c ∈ (out ++ s).splitOn 47, Name c ∨ c ∈ s.splitOn 47 := by
  induction h with
  | nil => exact fun c hc => .inr hc
  | cons hname _ _ _ ih =>
    intro c hc
    rw [List.append_assoc, List.cons_append, List.splitOn_append_cons_self_of_not_mem hname.slash, List.mem_cons] at hc
    rcases hc with rfl | hc
    · exact .inl hname
    · exact ih c hc

def Apart (a b : UInt8) : Prop := ¬ (a = 44 ∧ b = 47)

theorem apart_of_not_mem (h : 47 ∉ s) : s.IsChain Apart := by
  apply List.Pairwise.isChain
  apply List.pairwise_of_forall_mem_list
  rintro a - b hb ⟨-, rfl⟩
  exact h hb

theorem Layout.apart (h : Layout out w) (hs : s.IsChain Apart) : (out ++ s).IsChain Apart := by
  induction h with
  | nil => exact hs
  | cons hname hlast _ _ ih =>
    rw [List.append_assoc, List.cons_append]
    apply List.IsChain.append (apart_of_not_mem hname.slash)
    · exact ih.cons (fun y _ h => absurd h.1 (by decide))
    · rintro a ha b - ⟨rfl, -⟩
      exact hlast ha

structure Written (u e : GoogleString) : Prop where
  reads : decode e = (u, true)
  names : ∀ c ∈ e.splitOn 47, Name c ∨ c = []
  tail : ∀ c ∈ (e.splitOn 47).tail, Name c
  comma : e.getLast? = some 44
  apart : e.IsChain Apart

theorem Written.slash {u e : GoogleString} (h : Written u e) (hnames : ∀ c ∈ e.splitOn 47, Name c) :
    Written (47 :: u) (47 :: e) := by
  have hsplit : (47 :: e).splitOn (47 : UInt8) = [] :: e.splitOn 47 :=
    List.splitOn_append_cons_self_of_not_mem (List.not_mem_nil (a := 47)) e
  have hdecode : decode (47 :: e) = (47 :: (decode e).1, (decode e).2) := rfl
  exact {
    reads := by rw [hdecode, h.reads]
    names := by
      intro c hc
      rw [hsplit, List.mem_cons] at hc
      exact hc.symm.imp (hnames c) id
    tail := by
      rw [hsplit]
      exact hnames
    comma := by
      obtain ⟨b, e', rfl⟩ : ∃ b e', e = b :: e' := List.exists_cons_of_ne_nil (by rintro rfl; simpa using h.comma)
      rw [List.getLast?_cons_cons]
      exact h.comma
    apart := h.apart.cons (fun y _ h => absurd h.1 (by decide)) }

variable {unescape : GoogleString → GoogleString} {filenamePrefix u : GoogleString}

end PageSpeed.UrlToFilenameEncoder
