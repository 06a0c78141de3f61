import MilterGuard.CommandReplies
import MilterGuard.ValidTexts

/-!
A command response that is written in several calls. The calls may go on after the limit
was met, but the response stays within the limit and keeps a notice from then on.
-/
namespace MilterGuard.BoundedResponses

open ByteStrings ValidTexts CommandReplies

variable {body text kept : Bytes} {limit : ℕ}

/-- The longest start of a text that ends between two runes and fits in the limit. -/
structure Longest (limit : ℕ) (text kept : Bytes) : Prop where
  start : kept <+: text
  valid : validUTF8 kept = true
  fits : kept.length ≤ limit
  longest : ∀ other, other <+: text → validUTF8 other = true → other.length ≤ limit → other <+: kept

theorem longest_validStart (text : Bytes) (limit : ℕ) :
    Longest limit text (validStart text limit) := by
  induction limit with
  | zero =>
    refine ⟨List.nil_prefix, rfl, le_rfl, fun other _ _ hlength => ?_⟩
    rw [List.length_eq_zero_iff.mp (Nat.le_zero.mp hlength)]
    exact List.nil_prefix
  | succ limit ih =>
    rw [validStart]
    split_ifs with hvalid
    · exact ⟨List.take_prefix _ _, hvalid, List.length_take_le _ _,
        fun _ hother _ hlength => List.prefix_take_iff.mpr ⟨hother, hlength⟩⟩
    · refine ⟨ih.start, ih.valid, ih.fits.trans (Nat.le_succ limit),
        fun other hother hothers hlength => ih.longest other hother hothers ?_⟩
      by_contra hlong
      have hwhole : other = text.take (limit + 1) := by
        rw [show limit + 1 = other.length by omega]
        exact List.prefix_iff_eq_take.mp hother
      exact hvalid (hwhole ▸ hothers)

/-- What follows a valid start of a valid text is valid. -/
theorem validUTF8_of_append {a b : Bytes} (ha : validUTF8 a = true)
    (h : validUTF8 (a ++ b) = true) : validUTF8 b = true := by
  have hrepair := toValidUTF8_append_valid ha b
  rw [toValidUTF8_of_valid h] at hrepair
  rw [List.append_cancel_left hrepair]
  exact validUTF8_toValidUTF8 b

theorem Longest.behind (h : Longest (limit - body.length) text kept) (hbody : validUTF8 body = true)
    (hfits : body.length ≤ limit) : Longest limit (body ++ text) (body ++ kept) := by
  refine ⟨(List.prefix_append_right_inj body).mpr h.start, validUTF8_append hbody h.valid, ?_, ?_⟩
  · have hlength := h.fits
    rw [List.length_append]
    omega
  intro other hother hvalid hlength
  rcases List.prefix_or_prefix_of_prefix hother (List.prefix_append body text) with h' | ⟨rest, rfl⟩
  · exact h'.trans (List.prefix_append body kept)
  · rw [List.prefix_append_right_inj] at hother ⊢
    rw [List.length_append] at hlength
    exact h.longest rest hother (validUTF8_of_append hbody hvalid) (by omega)

theorem Longest.inside (h : Longest limit body kept) (hlong : limit ≤ body.length) (text : Bytes) :
    Longest limit (body ++ text) kept := by
  refine ⟨h.start.trans (List.prefix_append body text), h.valid, h.fits, ?_⟩
  intro other hother hvalid hlength
  refine h.longest other ?_ hvalid hlength
  exact List.prefix_of_prefix_length_le hother (List.prefix_append body text)
    (hlength.trans hlong)

def contentLimit : ℕ := maxResponseBytes - responseTruncatedNotice.length

/-- A call appends the text, or it leaves the longest start that fits and the notice. -/
theorem appendBoundedResponse_cases (hbody : validUTF8 body = true)
    (hlength : body.length ≤ maxResponseBytes) (text : Bytes) :
    (appendBoundedResponse body text = (body ++ text, true) ∧
      (body ++ text).length ≤ maxResponseBytes) ∨
    ∃ kept, appendBoundedResponse body text = (kept ++ responseTruncatedNotice, false) ∧
      Longest contentLimit (body ++ text) kept := by
  unfold appendBoundedResponse
  by_cases hfits : text.length ≤ maxResponseBytes - body.length
  · rw [if_pos hfits]
    exact Or.inl ⟨rfl, by rw [List.length_append]; omega⟩
  · rw [if_neg hfits]
    refine Or.inr ⟨_, rfl, ?_⟩
    split_ifs with hlong
    · exact (longest_validStart body _).inside (Nat.le_of_lt hlong) text
    · refine Longest.behind ?_ hbody (Nat.le_of_not_lt hlong)
      rw [Nat.min_eq_left (by omega)]
      exact longest_validStart text _

/-- A text that is written in one call. -/
abbrev ValidText := { text : Bytes // validUTF8 text = true }

/-- The response after the calls, which start with an empty one. -/
def response (texts : List ValidText) : Bytes :=
  texts.foldl (fun body text => (appendBoundedResponse body text).1) []

/-- Every call returned true. -/
def Whole (texts : List ValidText) : Prop :=
  ∀ before (text : ValidText) after, texts = before ++ text :: after →
    (appendBoundedResponse (response before) text).2 = true

variable (texts : List ValidText) (text : ValidText)

private theorem response_append :
    response (texts ++ [text]) = (appendBoundedResponse (response texts) text).1 := by
  simp [response]

theorem response_bounded :
    validUTF8 (response texts) = true ∧ (response texts).length ≤ maxResponseBytes := by
  induction texts using List.reverseRecOn with
  | nil => exact ⟨rfl, Nat.zero_le _⟩
  | append_singleton texts text ih =>
    rw [response_append]
    rcases appendBoundedResponse_cases ih.1 ih.2 text with ⟨hcall, hlength⟩ | ⟨kept, hcall, hkept⟩
    · rw [hcall]
      exact ⟨validUTF8_append ih.1 text.2, hlength⟩
    · rw [hcall]
      have hfits := hkept.fits
      have hnotice : responseTruncatedNotice.length ≤ maxResponseBytes := by decide +kernel
      refine ⟨validUTF8_append hkept.valid (by decide +kernel), ?_⟩
      rw [contentLimit] at hfits
      rw [List.length_append]
      omega

private theorem call_cases :
    appendBoundedResponse (response texts) text = (response texts ++ text, true) ∨
      ∃ kept,
        appendBoundedResponse (response texts) text = (kept ++ responseTruncatedNotice, false) ∧
          Longest contentLimit (response texts ++ text) kept := by
  have hbounded := response_bounded texts
  exact (appendBoundedResponse_cases hbounded.1 hbounded.2 text).imp_left And.left

theorem response_of_whole (h : Whole texts) : response texts = texts.flatMap Subtype.val := by
  induction texts using List.reverseRecOn with
  | nil => rfl
  | append_singleton texts text ih =>
    have hbefore := ih fun before next after heq => h before next (after ++ [text]) (by simp [heq])
    have hlast := h texts text [] rfl
    rw [response_append]
    rcases call_cases texts text with hcall | ⟨kept, hcall, -⟩
    · rw [hcall, hbefore]
      simp
    · rw [hcall] at hlast
      exact nomatch hlast

/-- A response that holds the notice keeps one. -/
theorem notice_kept (h : responseTruncatedNotice <:+: response texts) (after : List ValidText) :
    responseTruncatedNotice <:+: response (texts ++ after) := by
  induction after using List.reverseRecOn with
  | nil => rwa [List.append_nil]
  | append_singleton after text ih =>
    rw [← List.append_assoc, response_append]
    rcases call_cases (texts ++ after) text with hcall | ⟨kept, hcall, -⟩
    · rw [hcall]
      exact ih.trans (List.prefix_append _ _).isInfix
    · rw [hcall]
      exact (List.suffix_append _ _).isInfix

/-- All calls on one response, also those after the first that returned false. -/
theorem responses_bounded :
    validUTF8 (response texts) = true ∧ (response texts).length ≤ maxResponseBytes ∧
      (Whole texts → response texts = texts.flatMap Subtype.val) ∧
      ∀ before (text : ValidText) after, texts = before ++ text :: after →
        (appendBoundedResponse (response before) text).2 = false →
        responseTruncatedNotice <:+: response texts ∧
          (Whole before → ∃ kept, response (before ++ [text]) = kept ++ responseTruncatedNotice ∧
            Longest contentLimit ((before ++ [text]).flatMap Subtype.val) kept) := by
  have hbounded := response_bounded texts
  refine ⟨hbounded.1, hbounded.2, response_of_whole texts, ?_⟩
  rintro before text after rfl hfalse
  rcases call_cases before text with hcall | ⟨kept, hcall, hkept⟩
  · rw [hcall] at hfalse
    exact nomatch hfalse
  have hresponse : response (before ++ [text]) = kept ++ responseTruncatedNotice := by
    rw [response_append, hcall]
  constructor
  · rw [List.append_cons]
    refine notice_kept _ ?_ after
    rw [hresponse]
    exact (List.suffix_append _ _).isInfix
  · intro hwhole
    refine ⟨kept, hresponse, ?_⟩
    rw [List.flatMap_append, ← response_of_whole before hwhole]
    simpa using hkept

end MilterGuard.BoundedResponses
