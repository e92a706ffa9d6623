import Mathlib
import Miez.ClientHandler

/-!
# `Miez.Proofs.NetworkServer.Scanning`: what `sscanf` makes of a command buffer

`words` splits a buffer at its white space. It is the way the protocol is written down, and
`sscanf` is the way the handler reads it. The two differ in their limits: a conversion `%Ns`
stops after `N` bytes and leaves the rest of the word for the next conversion.

* `dispatch_publishLine`: a line `PUBLISH <channel> <len>` of the protocol asks for a publish
  with that channel and that length. `announced_publishLine_of_nul` is the one exception, a
  channel with a NUL byte, where the buffer ends as a C string.
* `givesKey_of_dispatch`: a buffer that the handler takes for `AUTH` has the word `AUTH` and
  a second word, of which the handler sees the first 255 bytes.
-/

set_option autoImplicit false

namespace Miez.Proofs.NetworkServer

open Miez.NetworkServer
open Miez.Stdio

/-! ### C strings -/

/-- A buffer without a NUL byte is its own C string. -/
theorem ofBuffer_bytes {bs : List UInt8} (h : 0 ∉ bs) : (CString.ofBuffer bs).bytes = bs := by
  have hall : ∀ b ∈ bs, decide (b ≠ 0) = true := by
    intro b hb
    have hne : b ≠ 0 := fun h0 => h (h0 ▸ hb)
    simpa using hne
  show bs.takeWhile (· ≠ 0) = bs
  have htake : (bs ++ []).takeWhile (· ≠ 0) = bs ++ [] := List.takeWhile_append_of_pos hall
  simpa using htake

/-- The bytes of a C string as a buffer give the C string back. -/
theorem ofBuffer_cstring (s : CString) : CString.ofBuffer s.bytes = s :=
  CString.ext (ofBuffer_bytes s.not_nul)

/-- The C string of a buffer whose first part has no NUL byte. -/
theorem ofBuffer_append_bytes {as bs : List UInt8} (h : 0 ∉ as) :
    (CString.ofBuffer (as ++ bs)).bytes = as ++ (CString.ofBuffer bs).bytes := by
  show (as ++ bs).takeWhile (· ≠ 0) = as ++ bs.takeWhile (· ≠ 0)
  rw [List.takeWhile_append_of_pos]
  intro b hb
  have hne : b ≠ 0 := fun h0 => h (h0 ▸ hb)
  simpa using hne

/-! ### The conversions -/

/-- `rest` is empty or starts with white space. -/
def AtBreak (rest : List UInt8) : Prop := ∀ b ∈ rest.head?, isSpace b = true

/-- A blank is a break. -/
theorem atBreak_blank (bs : List UInt8) : AtBreak (32 :: bs) := by
  intro b hb
  obtain rfl : 32 = b := by simpa using hb
  decide

/-- The bytes that are no white space, up to a break. -/
theorem takeWhile_word {w rest : List UInt8} (hw : ∀ b ∈ w, isSpace b = false)
    (hrest : AtBreak rest) : (w ++ rest).takeWhile (fun b => !isSpace b) = w := by
  rw [List.takeWhile_append_of_pos (by simpa using hw)]
  cases rest with
  | nil => simp
  | cons b r =>
      have hb : isSpace b = true := hrest b rfl
      rw [List.takeWhile_cons_of_neg (by simp [hb]), List.append_nil]

/-- White space before a word is skipped, and nothing else is. -/
theorem skipSpace_word {w : List UInt8} (rest : List UInt8) (hne : w ≠ [])
    (hw : ∀ b ∈ w, isSpace b = false) : skipSpace (w ++ rest) = w ++ rest := by
  cases w with
  | nil => exact absurd rfl hne
  | cons b w =>
      have hb : isSpace b = false := hw b (by simp)
      rw [skipSpace, List.cons_append, List.dropWhile_cons_of_neg (by simp [hb])]

/-- A blank is skipped. -/
theorem skipSpace_blank (bs : List UInt8) : skipSpace (32 :: bs) = skipSpace bs := by
  rw [skipSpace, List.dropWhile_cons_of_pos (by decide), skipSpace]

/-- `%Ns` on a word that fits. -/
theorem scanString_word (width : Nat) {w : List UInt8} (rest : List UInt8) (hne : w ≠ [])
    (hw : ∀ b ∈ w, isSpace b = false) (hrest : AtBreak rest) (hlen : w.length ≤ width) :
    scanString width (w ++ rest) = some (w, rest) := by
  have htoken : ((w ++ rest).takeWhile fun b => !isSpace b).take width = w := by
    rw [takeWhile_word hw hrest, List.take_of_length_le hlen]
  simp only [scanString]
  rw [skipSpace_word rest hne hw, htoken, if_neg hne, List.drop_left]

/-- `%Ns` skips a blank. -/
theorem scanString_blank (width : Nat) (bs : List UInt8) :
    scanString width (32 :: bs) = scanString width bs := by
  simp only [scanString, skipSpace_blank]

/-- A digit is no white space. -/
theorem isSpace_of_isDigit {b : UInt8} (h : isDigit b = true) : isSpace b = false := by
  simp only [isDigit, Bool.and_eq_true, decide_eq_true_eq, UInt8.le_iff_toNat_le] at h
  have h48 : (48 : UInt8).toNat = 48 := rfl
  have h13 : (13 : UInt8).toNat = 13 := rfl
  have hblank : b ≠ 32 := by
    rintro rfl
    exact absurd h.1 (by decide)
  have hle : ¬ b ≤ 13 := by
    rw [UInt8.le_iff_toNat_le]
    omega
  simp [isSpace, hblank, hle]

/-- A number without a sign is read as it is. -/
theorem scanSign_digit {b : UInt8} (h : isDigit b = true) (bs : List UInt8) :
    scanSign (b :: bs) = (false, b :: bs) := by
  have hplus : b ≠ 43 := by rintro rfl; exact absurd h (by decide)
  have hminus : b ≠ 45 := by rintro rfl; exact absurd h (by decide)
  unfold scanSign
  split
  · exact absurd (List.cons.inj ‹_›).1 hplus
  · exact absurd (List.cons.inj ‹_›).1 hminus
  · rfl

/-- `%zu` on a blank and the digits of a 64-bit number. -/
theorem scanSize_digits {ds : List UInt8} (hne : ds ≠ []) (hds : ∀ d ∈ ds, isDigit d = true)
    (hlt : digitsValue ds < 2 ^ 64) :
    scanSize (32 :: ds) = some (UInt64.ofNat (digitsValue ds)) := by
  have hspace : skipSpace (32 :: ds) = ds := by
    have hskip := skipSpace_word [] hne fun b hb => isSpace_of_isDigit (hds b hb)
    rw [List.append_nil] at hskip
    rw [skipSpace_blank, hskip]
  have hsign : scanSign ds = (false, ds) := by
    cases ds with
    | nil => exact absurd rfl hne
    | cons d ds => exact scanSign_digit (hds d (by simp)) ds
  have htake : ds.takeWhile isDigit = ds := by
    have htake : (ds ++ []).takeWhile isDigit = ds ++ [] := List.takeWhile_append_of_pos hds
    simpa using htake
  simp only [scanSize]
  rw [hspace, hsign]
  show (if ds.takeWhile isDigit = [] then none else _) = _
  rw [htake, if_neg hne, if_neg (by omega)]
  rfl

/-! ### The command line of a publish -/

/-- The line `PUBLISH <channel> <len>`. -/
def publishLine (channel digits : List UInt8) : List UInt8 :=
  ascii "PUBLISH" ++ 32 :: (channel ++ 32 :: digits)

/-- What the protocol asks of the line of a publish with a content of `len` bytes. -/
structure PublishHeader (channel digits : List UInt8) (len : Nat) : Prop where
  channel_ne_nil : channel ≠ []
  channel_length : channel.length ≤ 255
  channel_word : ∀ b ∈ channel, isSpace b = false
  digits_ne_nil : digits ≠ []
  digits_isDigit : ∀ d ∈ digits, isDigit d = true
  digits_value : digitsValue digits = len
  len_pos : 1 ≤ len
  len_le : len ≤ 65536

section
variable {channel digits : List UInt8} {len : Nat}

/-- A digit is not NUL. -/
theorem not_nul_of_digits (h : ∀ d ∈ digits, isDigit d = true) : (0 : UInt8) ∉ digits := by
  intro h0
  exact absurd (h 0 h0) (by decide)

/-- A line of a publish has no NUL byte outside its channel. -/
theorem not_nul_publishLine (h : PublishHeader channel digits len) (hnul : 0 ∉ channel) :
    (0 : UInt8) ∉ publishLine channel digits := by
  have hdigits := not_nul_of_digits h.digits_isDigit
  have hname : (0 : UInt8) ∉ ascii "PUBLISH" := by decide
  simp only [publishLine, List.mem_append, List.mem_cons, not_or]
  exact ⟨hname, by decide, hnul, by decide, hdigits⟩

/-- `sscanf` on a line of a publish. -/
theorem scanCommand_publishLine (h : PublishHeader channel digits len) (hnul : 0 ∉ channel) :
    scanCommand (.ofBuffer (publishLine channel digits))
      = some (literal "PUBLISH", .ofBuffer channel, UInt64.ofNat len) := by
  have hword : ∀ b ∈ ascii "PUBLISH", isSpace b = false := by decide +kernel
  have hcommand := scanString_word 31 (32 :: (channel ++ 32 :: digits)) (by decide) hword
    (atBreak_blank _) (by decide)
  have hchannel := scanString_word 255 (32 :: digits) h.channel_ne_nil h.channel_word
    (atBreak_blank _) h.channel_length
  have hsize := scanSize_digits h.digits_ne_nil h.digits_isDigit
    (by rw [h.digits_value]; exact lt_of_le_of_lt h.len_le (by decide))
  simp only [scanCommand]
  rw [ofBuffer_bytes (not_nul_publishLine h hnul), publishLine, hcommand]
  simp only [Option.bind_some]
  rw [scanString_blank, hchannel]
  simp only [Option.map_some]
  rw [hsize, h.digits_value]
  rfl

/-- A buffer that is scanned as a publish asks for it when the length is not 0. -/
theorem dispatch_of_scan_publish {buffer channelName : CString} {contentLen : UInt64}
    (h : scanCommand buffer = some (literal "PUBLISH", channelName, contentLen)) :
    dispatch true buffer =
      if contentLen > 0 then .publish channelName contentLen else .error .unknownCommand := by
  have hauth : (literal "PUBLISH").strcmp (literal "AUTH") ≠ 0 := by decide
  have hsubscribe : (literal "PUBLISH").strcmp (literal "SUBSCRIBE") ≠ 0 := by decide
  have hpublish : (literal "PUBLISH").strcmp (literal "PUBLISH") = 0 := by decide
  have hattach : (literal "PUBLISH").strcmp (literal "ATTACH") ≠ 0 := by decide
  have hquit : (literal "PUBLISH").strcmp (literal "QUIT") ≠ 0 := by decide
  simp only [dispatch]
  rw [h]
  simp only [hauth, hsubscribe, hpublish, hattach, hquit, Bool.not_true, if_false,
    Bool.false_eq_true, true_and]

/-- A line of a publish asks for a publish with its channel and its length. -/
theorem dispatch_publishLine (h : PublishHeader channel digits len) (hnul : 0 ∉ channel) :
    dispatch true (.ofBuffer (publishLine channel digits))
      = .publish (.ofBuffer channel) (UInt64.ofNat len) := by
  have hpos : UInt64.ofNat len > 0 := by
    have hlen := h.len_le
    have hlen' := h.len_pos
    rw [gt_iff_lt, UInt64.lt_iff_toNat_lt, UInt64.toNat_ofNat_of_lt' (lt_of_le_of_lt hlen (by decide))]
    exact hlen'
  rw [dispatch_of_scan_publish (scanCommand_publishLine h hnul), if_pos hpos]

/-- A length that the protocol allows is not too large for the handler. -/
theorem not_tooLarge (h : PublishHeader channel digits len) :
    ¬ UInt64.ofNat len > maxContentSize := by
  have hlen := h.len_le
  have hmax : maxContentSize.toNat = 65536 := rfl
  rw [gt_iff_lt, UInt64.lt_iff_toNat_lt, UInt64.toNat_ofNat_of_lt' (lt_of_le_of_lt hlen (by decide)), hmax]
  omega

/-- The handler goes on to read the content that a line of a publish announces. -/
theorem announced_publishLine (h : PublishHeader channel digits len) (hnul : 0 ∉ channel) :
    announced (publishLine channel digits) = some (.ofBuffer channel, UInt64.ofNat len) := by
  simp only [announced]
  rw [dispatch_publishLine h hnul]
  exact if_neg (not_tooLarge h)

/-- The handler comes to the `malloc` for the content. -/
theorem afterCommand_publishLine (h : PublishHeader channel digits len) (hnul : 0 ∉ channel) :
    afterCommand (publishLine channel digits)
      = some (.malloc (.ofBuffer channel) (UInt64.ofNat len)) := by
  simp only [afterCommand]
  rw [dispatch_publishLine h hnul]
  simp only [handlePublish]
  rw [if_neg (not_tooLarge h)]

/-- A buffer without a third conversion announces no content. -/
theorem announced_of_scanCommand {buffer : List UInt8}
    (h : ∀ r, scanCommand (.ofBuffer buffer) = some r → r.2.2 = 0) : announced buffer = none := by
  simp only [announced, dispatch]
  cases hscan : scanCommand (.ofBuffer buffer) with
  | none => simp only []; split_ifs <;> rfl
  | some r =>
      have hlen := h r hscan
      have hpos : ¬ r.2.2 > 0 := by rw [hlen]; decide
      simp only [hpos, and_false, if_false]
      split_ifs <;> rfl

/-- A NUL byte in the channel ends the buffer for `sscanf`, so the handler does not see the
length and announces nothing. -/
theorem announced_publishLine_of_nul (h : PublishHeader channel digits len)
    (hnul : 0 ∈ channel) : announced (publishLine channel digits) = none := by
  obtain ⟨as, bs, rfl, has⟩ := List.eq_append_cons_of_mem hnul
  have hbytes : (CString.ofBuffer (publishLine (as ++ 0 :: bs) digits)).bytes
      = ascii "PUBLISH" ++ 32 :: as := by
    have hpre : (0 : UInt8) ∉ ascii "PUBLISH" ++ 32 :: as := by
      have hname : (0 : UInt8) ∉ ascii "PUBLISH" := by decide
      simp only [List.mem_append, List.mem_cons, not_or]
      exact ⟨hname, by decide, has⟩
    have hsplit : publishLine (as ++ 0 :: bs) digits
        = (ascii "PUBLISH" ++ 32 :: as) ++ 0 :: (bs ++ 32 :: digits) := by
      simp [publishLine]
    rw [hsplit, ofBuffer_append_bytes hpre]
    show ascii "PUBLISH" ++ 32 :: as ++ (0 :: (bs ++ 32 :: digits)).takeWhile (· ≠ 0) = _
    rw [List.takeWhile_cons_of_neg (by simp), List.append_nil]
  have hword : ∀ b ∈ ascii "PUBLISH", isSpace b = false := by decide +kernel
  have hcommand := scanString_word 31 (32 :: as) (by decide) hword (atBreak_blank as)
    (by decide)
  apply announced_of_scanCommand
  intro r hr
  simp only [scanCommand] at hr
  rw [hbytes, hcommand] at hr
  simp only [Option.bind_some] at hr
  rw [scanString_blank] at hr
  cases has' : as with
  | nil =>
      -- The channel is empty as a C string, so there is no second conversion.
      have hnone : scanString 255 [] = none := by decide
      rw [has', hnone] at hr
      cases hr
  | cons b as' =>
      have hchannel := scanString_word 255 [] (show as ≠ [] by simp [has'])
        (fun b hb => h.channel_word b (by simp [hb])) (by intro b hb; cases hb)
        (by have hlen := h.channel_length; simp only [List.length_append] at hlen; omega)
      rw [List.append_nil] at hchannel
      rw [hchannel] at hr
      obtain rfl := Option.some.inj hr
      show (scanSize []).getD 0 = 0
      decide

end

/-! ### Words -/

/-- The words of a buffer: its maximal parts without white space. -/
def words (bs : List UInt8) : List (List UInt8) := (bs.splitOnP isSpace).filter (· ≠ [])

/-- White space before a word is not part of a word. -/
theorem words_skipSpace (bs : List UInt8) : words (skipSpace bs) = words bs := by
  induction bs with
  | nil => rfl
  | cons b bs ih =>
      cases hb : isSpace b with
      | true =>
          have hskip : skipSpace (b :: bs) = skipSpace bs := List.dropWhile_cons_of_pos hb
          have hwords : words (b :: bs) = words bs := by
            simp [words, List.splitOnP_cons_eq_if_modifyHead, hb]
          rw [hskip, hwords, ih]
      | false =>
          have hskip : skipSpace (b :: bs) = b :: bs := List.dropWhile_cons_of_neg (by simp [hb])
          rw [hskip]

/-- The first word and the words after it. -/
theorem words_append {w rest : List UInt8} (hne : w ≠ []) (hw : ∀ b ∈ w, isSpace b = false)
    (hrest : AtBreak rest) : words (w ++ rest) = w :: words rest := by
  cases rest with
  | nil => simp [words, List.splitOnP_eq_singleton hw, hne]
  | cons b rest =>
      have hb : isSpace b = true := hrest b rfl
      have hsplit := List.splitOnP_append_cons_of_forall_mem hw b hb rest
      simp [words, hsplit, List.splitOnP_cons_eq_if_modifyHead, hb, hne]

/-- What `%Ns` reads is the start of the first word. When it is shorter than the width it is
the whole word, and the rest of the input has the other words. -/
theorem words_of_scanString {width : Nat} {bs token rest : List UInt8}
    (h : scanString width bs = some (token, rest)) :
    ∃ w ws, words bs = w :: ws ∧ w.take width = token ∧
      (token.length < width → words rest = ws) := by
  simp only [scanString] at h
  set w := (skipSpace bs).takeWhile fun b => !isSpace b with hwdef
  set r := (skipSpace bs).dropWhile fun b => !isSpace b with hrdef
  have hsplit : w ++ r = skipSpace bs := List.takeWhile_append_dropWhile
  have hw : ∀ b ∈ w, isSpace b = false := by
    intro b hb
    simpa using List.mem_takeWhile_imp hb
  have hr : AtBreak r := by
    intro b hb
    have hhead := List.head?_dropWhile_not (fun b => !isSpace b) (skipSpace bs)
    rw [← hrdef, show r.head? = some b from hb] at hhead
    simpa using hhead
  split_ifs at h with htoken
  obtain ⟨rfl, rfl⟩ : w.take width = token ∧ (skipSpace bs).drop (w.take width).length = rest := by
    simpa using h
  have hne : w ≠ [] := by
    intro hw0
    exact htoken (by rw [hw0, List.take_nil])
  refine ⟨w, words r, ?_, rfl, ?_⟩
  · rw [← words_skipSpace, ← hsplit]
    exact words_append hne hw hr
  · intro hlt
    have hle : w.length ≤ width := by
      rw [List.length_take] at hlt
      omega
    rw [List.take_of_length_le hle, ← hsplit, List.drop_left]

/-- The bytes of the parts of a split list are bytes of the list, and none of them splits it. -/
theorem mem_of_splitOnP (l : List UInt8) :
    ∀ w ∈ l.splitOnP isSpace, ∀ b ∈ w, b ∈ l ∧ isSpace b = false := by
  induction l with
  | nil => simp
  | cons a l ih =>
      rw [List.splitOnP_cons_eq_if_modifyHead]
      split_ifs with ha
      · intro w hw b hb
        rcases List.mem_cons.mp hw with rfl | hw
        · cases hb
        · exact ⟨List.mem_cons_of_mem _ (ih w hw b hb).1, (ih w hw b hb).2⟩
      · obtain ⟨u, us, hus⟩ := List.exists_cons_of_ne_nil (List.splitOnP_ne_nil isSpace l)
        rw [hus] at ih ⊢
        intro w hw b hb
        rcases List.mem_cons.mp hw with rfl | hw
        · rcases List.mem_cons.mp hb with rfl | hb
          · exact ⟨by simp, by simpa using ha⟩
          · exact ⟨List.mem_cons_of_mem _ (ih u (by simp) b hb).1, (ih u (by simp) b hb).2⟩
        · have hmem := ih w (by simp [hw]) b hb
          exact ⟨List.mem_cons_of_mem _ hmem.1, hmem.2⟩

/-- A buffer with a first word: white space, the word, and a rest with the other words. -/
theorem skipSpace_of_words {bs w : List UInt8} {ws : List (List UInt8)} (h : words bs = w :: ws) :
    ∃ r, skipSpace bs = w ++ r ∧ AtBreak r ∧ words r = ws := by
  set w' := (skipSpace bs).takeWhile fun b => !isSpace b with hwdef
  set r := (skipSpace bs).dropWhile fun b => !isSpace b with hrdef
  have hsplit : w' ++ r = skipSpace bs := List.takeWhile_append_dropWhile
  have hw : ∀ b ∈ w', isSpace b = false := by
    intro b hb
    simpa using List.mem_takeWhile_imp hb
  have hr : AtBreak r := by
    intro b hb
    have hhead := List.head?_dropWhile_not (fun b => !isSpace b) (skipSpace bs)
    rw [← hrdef, show r.head? = some b from hb] at hhead
    simpa using hhead
  have hne : w' ≠ [] := by
    intro hnil
    -- The input starts with white space after its white space was skipped.
    have hrest : skipSpace bs = r := by rw [← hsplit, hnil, List.nil_append]
    cases hrs : r with
    | nil =>
        rw [← words_skipSpace, hrest, hrs] at h
        cases h
    | cons b r' =>
        have hb : isSpace b = true := hr b (by rw [hrs]; rfl)
        have hhead := List.head?_dropWhile_not isSpace bs
        rw [show bs.dropWhile isSpace = r from hrest, hrs] at hhead
        simp [hb] at hhead
  have hwords : words bs = w' :: words r := by
    rw [← words_skipSpace, ← hsplit]
    exact words_append hne hw hr
  rw [hwords, List.cons.injEq] at h
  obtain ⟨rfl, rfl⟩ := h
  exact ⟨r, hsplit.symm, hr, rfl⟩

/-- A word has no white space and is not empty. -/
theorem word_of_words {bs w : List UInt8} (h : w ∈ words bs) :
    w ≠ [] ∧ ∀ b ∈ w, isSpace b = false := by
  have hmem := List.mem_filter.mp h
  exact ⟨by simpa using hmem.2, fun b hb => (mem_of_splitOnP bs w hmem.1 b hb).2⟩

/-- `%Ns` reads the first word, up to its width. The rest of the word stays in the input. -/
theorem scanString_of_words {width : Nat} (hwidth : 0 < width) {bs w : List UInt8}
    {ws : List (List UInt8)} (h : words bs = w :: ws) :
    ∃ r, scanString width bs = some (w.take width, w.drop width ++ r) ∧ AtBreak r ∧
      words r = ws := by
  obtain ⟨r, hskip, hr, hwords⟩ := skipSpace_of_words h
  obtain ⟨hne, hw⟩ := word_of_words (h ▸ List.mem_cons_self ..)
  refine ⟨r, ?_, hr, hwords⟩
  have htake : w.take width ≠ [] := by
    rw [Ne, List.take_eq_nil_iff, not_or]
    exact ⟨by omega, hne⟩
  have hdrop : (w ++ r).drop (w.take width).length = w.drop width ++ r := by
    rw [List.length_take]
    rcases Nat.le_total width w.length with hle | hle
    · rw [Nat.min_eq_left hle, List.drop_append_of_le_length hle]
    · rw [Nat.min_eq_right hle, List.drop_left, List.drop_of_length_le hle, List.nil_append]
  simp only [scanString]
  rw [hskip, takeWhile_word hw hr, if_neg htake, hdrop]

/-- Every byte that `%Ns` reads is a byte of the input. -/
theorem mem_of_scanString {width : Nat} {bs token rest : List UInt8}
    (h : scanString width bs = some (token, rest)) :
    (∀ b ∈ token, b ∈ bs) ∧ ∀ b ∈ rest, b ∈ bs := by
  simp only [scanString] at h
  split_ifs at h with htoken
  have hskip : ∀ b ∈ skipSpace bs, b ∈ bs := fun b hb => (List.dropWhile_sublist _).subset hb
  obtain ⟨h₁, h₂⟩ := Prod.mk.inj (Option.some.inj h)
  rw [← h₁, ← h₂]
  constructor
  · intro b hb
    exact hskip b ((List.takeWhile_sublist _).subset (List.mem_of_mem_take hb))
  · intro b hb
    exact hskip b (List.mem_of_mem_drop hb)

/-- A number in front of white space is scanned as if nothing followed it. -/
theorem scanSize_append {w r : List UInt8} (hne : w ≠ []) (hw : ∀ b ∈ w, isSpace b = false)
    (hr : AtBreak r) : scanSize (w ++ r) = scanSize w := by
  have hdigits : ∀ x : List UInt8, (x ++ r).takeWhile isDigit = x.takeWhile isDigit := by
    intro x
    induction x with
    | nil =>
        cases r with
        | nil => rfl
        | cons b r =>
            rw [List.nil_append, List.takeWhile_cons_of_neg]
            · rfl
            · intro hdigit
              have hspace := hr b rfl
              rw [isSpace_of_isDigit hdigit] at hspace
              cases hspace
    | cons b x ih =>
        rw [List.cons_append, List.takeWhile_cons, List.takeWhile_cons, ih]
  have hsign : scanSign (w ++ r) = ((scanSign w).1, (scanSign w).2 ++ r) := by
    cases w with
    | nil => exact absurd rfl hne
    | cons b w =>
        rw [List.cons_append]
        by_cases hplus : b = 43
        · rw [hplus]
          rfl
        · by_cases hminus : b = 45
          · rw [hminus]
            rfl
          · have hother : ∀ x : List UInt8, scanSign (b :: x) = (false, b :: x) := by
              intro x
              unfold scanSign
              split
              · rename_i heq
                exact absurd (List.cons.inj heq).1 hplus
              · rename_i heq
                exact absurd (List.cons.inj heq).1 hminus
              · rfl
            rw [hother, hother]
            rfl
  have hskip : skipSpace w = w := by
    have := skipSpace_word [] hne hw
    rwa [List.append_nil] at this
  simp only [scanSize]
  rw [skipSpace_word r hne hw, hskip, hsign]
  simp only [hdigits]

/-- The number in front of the other words is scanned from the first of them. -/
theorem scanSize_of_words {bs w : List UInt8} {ws : List (List UInt8)} (h : words bs = w :: ws) :
    scanSize bs = scanSize w := by
  obtain ⟨r, hskip, hr, -⟩ := skipSpace_of_words h
  obtain ⟨hne, hw⟩ := word_of_words (h ▸ List.mem_cons_self ..)
  have hsame : scanSize bs = scanSize (skipSpace bs) := by
    simp only [scanSize]
    rw [hskip, skipSpace_word r hne hw]
  rw [hsame, hskip, scanSize_append hne hw hr]

/-- There is no number when there is no word. -/
theorem scanSize_of_no_words {bs : List UInt8} (h : words bs = []) : scanSize bs = none := by
  have hskip : skipSpace bs = [] := by
    cases hs : skipSpace bs with
    | nil => rfl
    | cons b rest =>
        exfalso
        have hhead := List.head?_dropWhile_not isSpace bs
        rw [show bs.dropWhile isSpace = b :: rest from hs] at hhead
        have hb : isSpace b = false := by simpa using hhead
        rw [← words_skipSpace, hs] at h
        simp only [words, List.splitOnP_cons_eq_if_modifyHead, hb] at h
        obtain ⟨u, us, hus⟩ := List.exists_cons_of_ne_nil (List.splitOnP_ne_nil isSpace rest)
        rw [hus] at h
        simp at h
  simp only [scanSize]
  rw [hskip]
  rfl

/-- A buffer whose first word fits into `command`, and which has a second word, is scanned. The
number is scanned behind the 255th byte of the second word. -/
theorem scanCommand_of_words {buffer : CString} {w w' : List UInt8} {ws : List (List UInt8)}
    (h : words buffer.bytes = w :: w' :: ws) (hlen : w.length ≤ 31) :
    ∃ r, AtBreak r ∧ words r = ws ∧
      scanCommand buffer = some (.ofBuffer w, .ofBuffer (w'.take 255),
        (scanSize (w'.drop 255 ++ r)).getD 0) := by
  obtain ⟨rest, hfirst, -, hrest⟩ := scanString_of_words (by decide : 0 < 31) h
  obtain ⟨r, hsecond, hbreak, hwords⟩ := scanString_of_words (by decide : 0 < 255) hrest
  rw [List.take_of_length_le hlen, List.drop_of_length_le hlen, List.nil_append] at hfirst
  refine ⟨r, hbreak, hwords, ?_⟩
  simp only [scanCommand]
  rw [hfirst]
  simp only [Option.bind_some]
  rw [hsecond]
  rfl

/-- A buffer with fewer than two words is not scanned, when its word fits into `command`. -/
theorem scanCommand_of_word {buffer : CString} {w : List UInt8}
    (h : words buffer.bytes = [w]) (hlen : w.length ≤ 31) : scanCommand buffer = none := by
  obtain ⟨rest, hfirst, -, hrest⟩ := scanString_of_words (by decide : 0 < 31) h
  rw [List.take_of_length_le hlen, List.drop_of_length_le hlen, List.nil_append] at hfirst
  have hsecond : scanString 255 rest = none := by
    cases hscan : scanString 255 rest with
    | none => rfl
    | some r =>
        obtain ⟨w', ws', hwords, -⟩ := words_of_scanString hscan
        rw [hrest] at hwords
        cases hwords
  simp only [scanCommand]
  rw [hfirst]
  simp only [Option.bind_some]
  rw [hsecond]
  rfl

/-- `buffer` gives the key: its first word is `AUTH` and its second word, cut to 255 bytes, is
the key. -/
def GivesKey (key : CString) (buffer : List UInt8) : Prop :=
  ∃ second rest, words (CString.ofBuffer buffer).bytes = ascii "AUTH" :: second :: rest ∧
    second.take 255 = key.bytes

/-- The handler passes the second word of a buffer to `_handle_auth` when the first one is
`AUTH`. -/
theorem givesKey_of_dispatch {authenticated : Bool} {buffer : List UInt8} {key : CString}
    (h : dispatch authenticated (.ofBuffer buffer) = .auth key) : GivesKey key buffer := by
  simp only [dispatch] at h
  cases hscan : scanCommand (.ofBuffer buffer) with
  | none =>
      rw [hscan] at h
      simp only [] at h
      split_ifs at h
  | some r =>
      obtain ⟨command, channel, contentLen⟩ := r
      rw [hscan] at h
      simp only [] at h
      have hauth : command = literal "AUTH" := by
        by_contra hne
        rw [if_neg (by rwa [CString.strcmp_eq_zero_iff])] at h
        split_ifs at h
      rw [if_pos (by rw [CString.strcmp_eq_zero_iff]; exact hauth)] at h
      obtain rfl : channel = key := Command.auth.inj h
      simp only [scanCommand, Option.bind_eq_some_iff, Option.map_eq_some_iff] at hscan
      obtain ⟨⟨token, rest⟩, hfirst, ⟨token', rest'⟩, hsecond, heq⟩ := hscan
      simp only [Prod.mk.injEq] at heq
      obtain ⟨rfl, rfl, -⟩ := heq
      have hnul : ∀ b ∈ (CString.ofBuffer buffer).bytes, b ≠ 0 := by
        rintro b hb rfl
        exact (CString.ofBuffer buffer).not_nul hb
      have htoken : (CString.ofBuffer token).bytes = token :=
        ofBuffer_bytes fun h0 => hnul 0 ((mem_of_scanString hfirst).1 0 h0) rfl
      have htoken' : (CString.ofBuffer token').bytes = token' :=
        ofBuffer_bytes fun h0 =>
          hnul 0 ((mem_of_scanString hfirst).2 0 ((mem_of_scanString hsecond).1 0 h0)) rfl
      have hname : token = ascii "AUTH" := by
        rw [← htoken, hauth]
        decide
      obtain ⟨w, ws, hwords, htake, hrest⟩ := words_of_scanString hfirst
      obtain ⟨w', ws', hwords', htake', -⟩ := words_of_scanString hsecond
      have hlen : token.length < 31 := by
        rw [hname]
        decide
      have hw : w = token := by
        rw [← htake, List.length_take] at hlen
        rw [← htake, List.take_of_length_le (by omega)]
      refine ⟨w', ws', ?_, ?_⟩
      · rw [hwords, hw, hname, ← hrest hlen, hwords']
      · rw [htake', htoken']

/-- A buffer whose first word is `AUTH` is an `AUTH` command with its second word, up to 255
bytes. -/
theorem dispatch_of_words_auth {authenticated : Bool} {buffer : List UInt8} {second : List UInt8}
    {rest : List (List UInt8)}
    (h : words (CString.ofBuffer buffer).bytes = ascii "AUTH" :: second :: rest) :
    dispatch authenticated (.ofBuffer buffer) = .auth (.ofBuffer (second.take 255)) := by
  obtain ⟨r, -, -, hscan⟩ := scanCommand_of_words h (by decide)
  have hauth : (CString.ofBuffer (ascii "AUTH")).strcmp (literal "AUTH") = 0 := by decide
  simp only [dispatch]
  rw [hscan]
  simp only [hauth, if_true]

/-- A buffer that gives the key is an `AUTH` command with the key. -/
theorem GivesKey.dispatch {key : CString} {buffer : List UInt8} (h : GivesKey key buffer)
    (authenticated : Bool) :
    Miez.NetworkServer.dispatch authenticated (.ofBuffer buffer) = .auth key := by
  obtain ⟨second, rest, hwords, hkey⟩ := h
  rw [dispatch_of_words_auth hwords, hkey, ofBuffer_cstring]

end Miez.Proofs.NetworkServer
