import Miez.NetworkServer
import Miez.Proofs.NetworkServer.Framing

/-!
# `Miez.Proofs.NetworkServer.Lines`: one line, one command

A client sends a line where the handler of an authenticated connection expects a command. The
handler takes the whole line as one command when it fits into the buffer of `_client_handler`, and
else its tail becomes another command. `%255s` cuts a longer channel off, and `%zu` starts wherever
`%255s` has stopped, so it may take the length of a publish from the rest of the channel, or from
the start of a word that is no number.

`PlainLine` tells exactly which lines are one command with exact arguments.
-/

set_option autoImplicit false

namespace Miez.Proofs.NetworkServer

open Miez.Lib
open Miez.NetworkServer
open Miez.Stdio

/-! ### What a line asks for -/

/-- The first command that the handler takes is the whole line, and it has then taken the line and
its newline from the stream. -/
def OneCommand (E : Environment) (stream : List UInt8) (p : Nat) (line : List UInt8) : Prop :=
  ∃ s s', (reader E stream).Path ⟨some (.line []), p⟩ [] s ∧
    (reader E stream).next s () = some (s', some (.command line (announced line))) ∧
    s'.position = p + line.length + 1

/-- The handler answers `ERR` and does nothing else. -/
def Refused (pc : HandlerPc) : Prop := ∃ e, pc = .reply (.err e) false

/-- What a handler does with a line whose first word is `SUBSCRIBE` or `PUBLISH`: it subscribes to
the second word, it goes on to a publish to the second word with the number that is the third word,
or it refuses. -/
structure ExactArguments (line : List UInt8) (pc : HandlerPc) : Prop where
  subscribe : (words line).head? = some (ascii "SUBSCRIBE") →
    (∃ channel, (words line)[1]? = some channel ∧ pc = .callSubscribe (.ofBuffer channel)) ∨
      Refused pc
  publish : (words line).head? = some (ascii "PUBLISH") →
    (∃ channel digits contentLen, (words line)[1]? = some channel ∧
      (words line)[2]? = some digits ∧ digits.all isDigit = true ∧
      contentLen.toNat = digitsValue digits ∧
      pc = .read (.malloc (.ofBuffer channel) contentLen)) ∨ Refused pc

/-! ### The condition -/

/-- Where the length of a publish is scanned: the third word, or what is left of a second word of
more than 255 bytes. -/
def lengthField (channel : List UInt8) (others : List (List UInt8)) : List UInt8 :=
  if channel.length ≤ 255 then others.headD [] else channel.drop 255

/-- `%zu` reads a length that `_handle_publish` takes. -/
def ScansLength (field : List UInt8) : Prop :=
  ∃ contentLen, scanSize field = some contentLen ∧ 0 < contentLen ∧ contentLen ≤ maxContentSize

/-- A line that fits into the buffer, whose channel is not cut off when it is used, and whose
length is a number when one is scanned. -/
structure PlainLine (ctx : Connection) (line : List UInt8) : Prop where
  length : line.length < bufferSize - 1
  subscribe : ∀ channel others, words line = ascii "SUBSCRIBE" :: channel :: others →
    ctx.subscription = none → channel.length ≤ 255
  publish : ∀ channel others, words line = ascii "PUBLISH" :: channel :: others →
    ScansLength (lengthField channel others) →
      channel.length ≤ 255 ∧ (others.headD []).all isDigit = true

/-! ### Reading the line -/

section
variable {E : Environment} {stream : List UInt8} {p : Nat} {line rest : List UInt8}

/-- The handler reads the newline of the line. -/
theorem next_newline (hdrop : stream.drop p = line ++ 10 :: rest) (hne : line ≠ []) :
    (reader E stream).next ⟨some (.line line), p + line.length⟩ () =
      some (⟨afterCommand line, p + line.length + 1⟩, some (.command line (announced line))) := by
  rw [next_line line (drop_add hdrop), readLine, if_pos rfl, if_neg hne]
  rfl

/-- The handler reads a byte of the line. -/
theorem next_byte (hdrop : stream.drop p = line ++ 10 :: rest) (hnl : 10 ∉ line)
    {as bs : List UInt8} {b : UInt8} (hline : line = as ++ b :: bs) :
    (reader E stream).next ⟨some (.line as), p + as.length⟩ () =
      if as.length + 1 < bufferSize - 1 then
        some (⟨some (.line (as ++ [b])), p + (as ++ [b]).length⟩, none)
      else
        some (⟨afterCommand (as ++ [b]), p + (as ++ [b]).length⟩,
          some (.command (as ++ [b]) (announced (as ++ [b])))) := by
  have hdrop' : stream.drop (p + as.length) = b :: (bs ++ 10 :: rest) := by
    rw [hline, List.append_assoc] at hdrop
    exact drop_add hdrop
  have hb : b ≠ 10 := by
    intro hten
    exact hnl (hline ▸ List.mem_append_right _ (hten ▸ List.mem_cons_self ..))
  have hlength : p + (as ++ [b]).length = p + as.length + 1 := by
    rw [List.length_append]
    rfl
  rw [next_line as hdrop', readLine, if_neg hb, hlength]
  split
  · rfl
  · rfl

/-- While a handler reads a line and has not taken a command, it is at a byte of the line. -/
theorem path_inside_line (hdrop : stream.drop p = line ++ 10 :: rest) (hnl : 10 ∉ line)
    (hne : line ≠ []) {s s' : Reader} {tr : List ReaderEvent}
    (h : (reader E stream).Path s tr s') :
    ∀ as bs, line = as ++ bs → as.length < bufferSize - 1 →
      s = ⟨some (.line as), p + as.length⟩ → tr = [] →
      ∃ as bs, line = as ++ bs ∧ as.length < bufferSize - 1 ∧
        s' = ⟨some (.line as), p + as.length⟩ := by
  induction h with
  | nil => exact fun as bs hline hfit hs _ => ⟨as, bs, hline, hfit, hs⟩
  | @cons s s₁ s' a e tr hnext hpath ih =>
      intro as bs hline hfit hs htr
      obtain ⟨he, rfl⟩ := List.append_eq_nil_iff.mp htr
      subst hs
      cases bs with
      | nil =>
          rw [List.append_nil] at hline
          rw [← hline, next_newline hdrop hne] at hnext
          obtain ⟨-, rfl⟩ := Prod.mk.inj (Option.some.inj hnext)
          cases he
      | cons b bs =>
          have hstep := next_byte (E := E) hdrop hnl hline
          rw [hnext] at hstep
          split at hstep
          · rename_i hmore
            obtain ⟨rfl, -⟩ := Prod.mk.inj (Option.some.inj hstep)
            refine ih (as ++ [b]) bs ?_ ?_ rfl rfl
            · rw [hline, List.append_assoc]
              rfl
            · rwa [List.length_append]
          · obtain ⟨-, rfl⟩ := Prod.mk.inj (Option.some.inj hstep)
            cases he

/-- The handler takes the whole line as one command exactly when it fits into the buffer. -/
theorem oneCommand_iff (hdrop : stream.drop p = line ++ 10 :: rest) (hnl : 10 ∉ line)
    (hne : line ≠ []) : OneCommand E stream p line ↔ line.length < bufferSize - 1 := by
  constructor
  · rintro ⟨s, s', hpath, hnext, hposition⟩
    obtain ⟨as, bs, hline, hfit, rfl⟩ :=
      path_inside_line hdrop hnl hne hpath [] line rfl (by decide) rfl rfl
    cases bs with
    | nil =>
        rw [hline, List.append_nil]
        exact hfit
    | cons b bs =>
        -- a full buffer ends before the newline
        have hstep := next_byte (E := E) hdrop hnl hline
        rw [hnext] at hstep
        split at hstep
        · cases (Prod.mk.inj (Option.some.inj hstep)).2
        · obtain ⟨rfl, he⟩ := Prod.mk.inj (Option.some.inj hstep)
          have hbuffer : line = as ++ [b] := (ReaderEvent.command.inj (Option.some.inj he)).1
          rw [hbuffer] at hposition
          exact absurd hposition (Nat.ne_of_lt (Nat.lt_succ_self _))
  · intro hfit
    -- the handler is at the newline after the bytes of the line
    have hread : ∀ bs as, line = as ++ bs →
        (reader E stream).Path ⟨some (.line as), p + as.length⟩ []
          ⟨some (.line line), p + line.length⟩ := by
      intro bs
      induction bs with
      | nil =>
          intro as hline
          rw [List.append_nil] at hline
          rw [hline]
          exact .nil
      | cons b bs ih =>
          intro as hline
          have hmore : as.length + 1 < bufferSize - 1 := by
            rw [hline, List.length_append, List.length_cons] at hfit
            omega
          have hstep := next_byte (E := E) hdrop hnl hline
          rw [if_pos hmore] at hstep
          have hpath := ih (as ++ [b]) (by rw [hline, List.append_assoc]; rfl)
          exact .cons hstep hpath
    exact ⟨_, _, hread line [] rfl, next_newline hdrop hne, rfl⟩

end

/-! ### The arguments -/

section
variable {apiKey : Option CString} {ctx : Connection} {line channel : List UInt8}
  {others : List (List UInt8)}

/-- The length of a publish is scanned in its field. -/
theorem scanSize_lengthField {r : List UInt8} (hchannel : ∀ b ∈ channel, isSpace b = false)
    (hr : AtBreak r) (hwords : words r = others) :
    scanSize (channel.drop 255 ++ r) = scanSize (lengthField channel others) := by
  by_cases hlen : channel.length ≤ 255
  · rw [lengthField, if_pos hlen, List.drop_of_length_le hlen, List.nil_append]
    cases others with
    | nil =>
        rw [scanSize_of_no_words hwords]
        rfl
    | cons w ws => exact scanSize_of_words hwords
  · rw [lengthField, if_neg hlen]
    refine scanSize_append ?_ (fun b hb => hchannel b (List.mem_of_mem_drop hb)) hr
    rw [Ne, List.drop_eq_nil_iff]
    exact hlen

/-- The scan of a line with a short first word and a second word. -/
theorem scanCommand_line (hnul : 0 ∉ line) {w : List UInt8}
    (hwords : words line = w :: channel :: others) (hlen : w.length ≤ 31) :
    scanCommand (.ofBuffer line) = some (.ofBuffer w, .ofBuffer (channel.take 255),
      (scanSize (lengthField channel others)).getD 0) := by
  have hbytes := hwords
  rw [← ofBuffer_bytes hnul] at hbytes
  obtain ⟨r, hr, hrest, hscan⟩ := scanCommand_of_words hbytes hlen
  have hchannel := (word_of_words (hwords ▸ List.mem_cons_of_mem _ (List.mem_cons_self ..))).2
  rw [hscan, scanSize_lengthField hchannel hr hrest]

/-- A line with a second word whose first word is `SUBSCRIBE`. -/
theorem handleCommand_subscribe (hnul : 0 ∉ line) (hauth : ctx.authenticated = true)
    (hwords : words line = ascii "SUBSCRIBE" :: channel :: others) :
    (handleCommand apiKey ctx line).handler =
      if ctx.subscription.isSome then .reply (.err .alreadySubscribed) false
      else .callSubscribe (.ofBuffer (channel.take 255)) := by
  have hdispatch : dispatch true (.ofBuffer line) =
      .subscribe (.ofBuffer (channel.take 255)) := by
    rw [dispatch, scanCommand_line hnul hwords (by decide +kernel)]
    rfl
  rw [handleCommand, hauth, hdispatch]

/-- A line with a second word whose first word is `PUBLISH`. -/
theorem dispatch_publish_line (hnul : 0 ∉ line)
    (hwords : words line = ascii "PUBLISH" :: channel :: others) :
    dispatch true (.ofBuffer line) =
      if (scanSize (lengthField channel others)).getD 0 > 0 then
        .publish (.ofBuffer (channel.take 255)) ((scanSize (lengthField channel others)).getD 0)
      else .error .unknownCommand :=
  dispatch_of_scan_publish (scanCommand_line hnul hwords (by decide +kernel))

/-- A publish with a length in its field goes on. -/
theorem handleCommand_publish (hnul : 0 ∉ line) (hauth : ctx.authenticated = true)
    (hwords : words line = ascii "PUBLISH" :: channel :: others) {contentLen : UInt64}
    (hscan : scanSize (lengthField channel others) = some contentLen) (hpos : 0 < contentLen)
    (hle : contentLen ≤ maxContentSize) :
    (handleCommand apiKey ctx line).handler =
      .read (.malloc (.ofBuffer (channel.take 255)) contentLen) := by
  have hdispatch := dispatch_publish_line hnul hwords
  rw [hscan, Option.getD_some, if_pos hpos] at hdispatch
  have hstart : handlePublish (.ofBuffer (channel.take 255)) contentLen =
      .ok (.malloc (.ofBuffer (channel.take 255)) contentLen) := if_neg (UInt64.not_lt.mpr hle)
  rw [handleCommand, hauth, hdispatch]
  simp only [hstart]

/-- A publish without a length in its field is refused. -/
theorem handleCommand_publish_refused (hnul : 0 ∉ line) (hauth : ctx.authenticated = true)
    (hwords : words line = ascii "PUBLISH" :: channel :: others)
    (hscan : ¬ ScansLength (lengthField channel others)) :
    Refused (handleCommand apiKey ctx line).handler := by
  have hdispatch := dispatch_publish_line hnul hwords
  split at hdispatch
  · rename_i hpos
    obtain ⟨contentLen, hsome⟩ : ∃ contentLen,
        scanSize (lengthField channel others) = some contentLen := by
      cases hnone : scanSize (lengthField channel others) with
      | none =>
          rw [hnone] at hpos
          exact absurd hpos (by decide)
      | some contentLen => exact ⟨contentLen, rfl⟩
    rw [hsome, Option.getD_some] at hdispatch hpos
    have hlarge : contentLen > maxContentSize := by
      rw [gt_iff_lt, ← UInt64.not_le]
      exact fun hle => hscan ⟨contentLen, hsome, hpos, hle⟩
    have hstart : handlePublish (.ofBuffer (channel.take 255)) contentLen =
        .error .contentTooLarge := if_pos hlarge
    rw [handleCommand, hauth, hdispatch]
    simp only [hstart]
    exact ⟨_, rfl⟩
  · rw [handleCommand, hauth, hdispatch]
    exact ⟨_, rfl⟩

/-- A line with one short word that is neither `DETACH` nor `QUIT` is refused. -/
theorem handleCommand_word (hnul : 0 ∉ line) {w : List UInt8} (hwords : words line = [w])
    (hlen : w.length ≤ 31) (hdetach : w ≠ ascii "DETACH") (hquit : w ≠ ascii "QUIT") :
    Refused (handleCommand apiKey ctx line).handler := by
  have hbytes := hwords
  rw [← ofBuffer_bytes hnul] at hbytes
  have hscan := scanCommand_of_word hbytes hlen
  have hne : ∀ name : String, w ≠ ascii name → words (literal name).bytes = [ascii name] →
      (CString.ofBuffer line).strcmp (literal name) ≠ 0 := by
    intro name hw hname heq
    rw [CString.strcmp_eq_zero_iff] at heq
    rw [heq, hname] at hbytes
    exact hw (List.cons.inj hbytes).1.symm
  have hdispatch : dispatch ctx.authenticated (.ofBuffer line) = .error .invalidCommandFormat := by
    simp only [dispatch]
    rw [hscan]
    simp only [hne "DETACH" hdetach (by decide +kernel), hne "QUIT" hquit (by decide +kernel),
      if_false]
  rw [handleCommand, hdispatch]
  exact ⟨_, rfl⟩

/-- A channel that is not cut off is used as it is, and only then. -/
theorem ofBuffer_take_eq_iff (hnul : 0 ∉ channel) :
    CString.ofBuffer (channel.take 255) = .ofBuffer channel ↔ channel.length ≤ 255 := by
  have htake : 0 ∉ channel.take 255 := fun h => hnul (List.mem_of_mem_take h)
  constructor
  · intro h
    have hbytes := congrArg (fun c => c.bytes.length) h
    simp only [ofBuffer_bytes htake, ofBuffer_bytes hnul, List.length_take] at hbytes
    omega
  · intro h
    rw [List.take_of_length_le h]

/-- The bytes of a word are bytes of the line. -/
theorem not_nul_of_words (hnul : 0 ∉ line) {w : List UInt8} (hw : w ∈ words line) : 0 ∉ w := by
  intro h
  exact hnul (mem_of_splitOnP line w (List.mem_filter.mp hw).1 0 h).1

/-- A subscribe has exact arguments when its channel is not cut off, or when the connection has a
subscription already. -/
theorem exactSubscribe_iff (hnul : 0 ∉ line) (hauth : ctx.authenticated = true)
    (hwords : words line = ascii "SUBSCRIBE" :: channel :: others) :
    ((∃ c, (words line)[1]? = some c ∧
        (handleCommand apiKey ctx line).handler = .callSubscribe (.ofBuffer c)) ∨
      Refused (handleCommand apiKey ctx line).handler) ↔
    (ctx.subscription = none → channel.length ≤ 255) := by
  have hchannel : 0 ∉ channel :=
    not_nul_of_words hnul (hwords ▸ List.mem_cons_of_mem _ (List.mem_cons_self ..))
  rw [handleCommand_subscribe hnul hauth hwords, hwords]
  cases hsubscription : ctx.subscription with
  | some k =>
      refine ⟨?_, fun _ => Or.inr ⟨_, rfl⟩⟩
      intro _ hnone
      cases hnone
  | none =>
      rw [Option.isSome_none, if_neg Bool.false_ne_true]
      constructor
      · rintro (⟨c, hc, hpc⟩ | ⟨e, he⟩) -
        · obtain rfl : channel = c := Option.some.inj hc
          exact (ofBuffer_take_eq_iff hchannel).mp (HandlerPc.callSubscribe.inj hpc)
        · cases he
      · intro hlen
        refine Or.inl ⟨channel, rfl, ?_⟩
        rw [(ofBuffer_take_eq_iff hchannel).mpr (hlen rfl)]

/-- A word of digits that is scanned as a length that `_handle_publish` takes has that value. -/
theorem toNat_of_scanSize {digits : List UInt8} (hdigits : digits.all isDigit = true)
    {contentLen : UInt64} (hscan : scanSize digits = some contentLen)
    (hle : contentLen ≤ maxContentSize) : contentLen.toNat = digitsValue digits := by
  have hds : ∀ d ∈ digits, isDigit d = true := List.all_eq_true.mp hdigits
  cases digits with
  | nil => cases hscan
  | cons d ds =>
      have hskip := skipSpace_word [] (List.cons_ne_nil d ds) fun b hb => isSpace_of_isDigit (hds b hb)
      rw [List.append_nil] at hskip
      have htake : ((d :: ds) ++ []).takeWhile isDigit = (d :: ds) ++ [] :=
        List.takeWhile_append_of_pos hds
      rw [List.append_nil] at htake
      simp only [scanSize] at hscan
      rw [hskip, scanSign_digit (hds d (List.mem_cons_self ..))] at hscan
      simp only [htake] at hscan
      rw [if_neg (List.cons_ne_nil d ds)] at hscan
      split at hscan
      · -- a number that does not fit into 64 bits is too large
        obtain rfl := Option.some.inj hscan
        exact absurd hle (by decide)
      · obtain rfl := Option.some.inj hscan
        rw [if_neg Bool.false_ne_true, UInt64.toNat_ofNat_of_lt']
        rw [UInt64.size]
        omega

/-- A publish has exact arguments when its channel is not cut off and its length is a number, or
when no length is scanned. -/
theorem exactPublish_iff (hnul : 0 ∉ line) (hauth : ctx.authenticated = true)
    (hwords : words line = ascii "PUBLISH" :: channel :: others) :
    ((∃ c digits contentLen, (words line)[1]? = some c ∧ (words line)[2]? = some digits ∧
        digits.all isDigit = true ∧ contentLen.toNat = digitsValue digits ∧
        (handleCommand apiKey ctx line).handler = .read (.malloc (.ofBuffer c) contentLen)) ∨
      Refused (handleCommand apiKey ctx line).handler) ↔
    (ScansLength (lengthField channel others) →
      channel.length ≤ 255 ∧ (others.headD []).all isDigit = true) := by
  have hchannel : 0 ∉ channel :=
    not_nul_of_words hnul (hwords ▸ List.mem_cons_of_mem _ (List.mem_cons_self ..))
  by_cases hscans : ScansLength (lengthField channel others)
  · obtain ⟨contentLen, hscan, hpos, hle⟩ := hscans
    rw [handleCommand_publish hnul hauth hwords hscan hpos hle, hwords]
    constructor
    · rintro (⟨c, digits, len, hc, hd, hdigits, -, hread⟩ | ⟨e, he⟩) -
      · obtain rfl : channel = c := Option.some.inj hc
        obtain ⟨hcut, -⟩ := ReadPc.malloc.inj (HandlerPc.read.inj hread)
        refine ⟨(ofBuffer_take_eq_iff hchannel).mp hcut, ?_⟩
        cases others with
        | nil => rfl
        | cons w ws =>
            obtain rfl : w = digits := Option.some.inj hd
            exact hdigits
      · cases he
    · intro hplain
      obtain ⟨hlen, hdigits⟩ := hplain ⟨contentLen, hscan, hpos, hle⟩
      rw [lengthField, if_pos hlen] at hscan
      cases others with
      | nil => cases hscan
      | cons w ws =>
          refine Or.inl ⟨channel, w, contentLen, rfl, rfl, hdigits, toNat_of_scanSize hdigits hscan hle, ?_⟩
          rw [(ofBuffer_take_eq_iff hchannel).mpr hlen]
  · exact ⟨fun _ h => absurd h hscans,
      fun _ => Or.inr (handleCommand_publish_refused hnul hauth hwords hscans)⟩

/-- A line with a first word has no other word, or it has a second word. -/
theorem words_cases {w : List UInt8} (h : (words line).head? = some w) :
    words line = [w] ∨ ∃ channel others, words line = w :: channel :: others := by
  match words line, h with
  | [_], h =>
      obtain rfl := Option.some.inj h
      exact Or.inl rfl
  | _ :: channel :: others, h =>
      obtain rfl := Option.some.inj h
      exact Or.inr ⟨channel, others, rfl⟩

/-- One line is one command with exact arguments exactly when it is plain. -/
theorem oneLine_iff {E : Environment} {stream rest : List UInt8} {p : Nat}
    (hdrop : stream.drop p = line ++ 10 :: rest) (hne : line ≠ []) (hnl : 10 ∉ line)
    (hnul : 0 ∉ line) (hauth : ctx.authenticated = true) :
    (OneCommand E stream p line ∧ ExactArguments line (handleCommand apiKey ctx line).handler) ↔
      PlainLine ctx line := by
  rw [oneCommand_iff hdrop hnl hne]
  constructor
  · rintro ⟨hfit, hexact⟩
    refine ⟨hfit, ?_, ?_⟩
    · intro channel others hwords
      exact (exactSubscribe_iff hnul hauth hwords).mp (hexact.subscribe (by rw [hwords]; rfl))
    · intro channel others hwords
      exact (exactPublish_iff hnul hauth hwords).mp (hexact.publish (by rw [hwords]; rfl))
  · intro hplain
    refine ⟨hplain.length, ?_, ?_⟩
    · intro hfirst
      rcases words_cases hfirst with hwords | ⟨channel, others, hwords⟩
      · exact Or.inr (handleCommand_word hnul hwords (by decide +kernel) (by decide +kernel)
          (by decide +kernel))
      · exact (exactSubscribe_iff hnul hauth hwords).mpr (hplain.subscribe channel others hwords)
    · intro hfirst
      rcases words_cases hfirst with hwords | ⟨channel, others, hwords⟩
      · exact Or.inr (handleCommand_word hnul hwords (by decide +kernel) (by decide +kernel)
          (by decide +kernel))
      · exact (exactPublish_iff hnul hauth hwords).mpr (hplain.publish channel others hwords)

/-- Two different channels of plain lines are different channels of the broker. -/
theorem channel_inj_of_plainLine {line' channel' : List UInt8} {others' : List (List UInt8)}
    (hnul : 0 ∉ line) (hnul' : 0 ∉ line') (hauth : ctx.authenticated = true)
    (hsubscription : ctx.subscription = none) (hplain : PlainLine ctx line)
    (hplain' : PlainLine ctx line') (hwords : words line = ascii "SUBSCRIBE" :: channel :: others)
    (hwords' : words line' = ascii "SUBSCRIBE" :: channel' :: others')
    (h : (handleCommand apiKey ctx line).handler = (handleCommand apiKey ctx line').handler) :
    channel = channel' := by
  have hchannel : 0 ∉ channel :=
    not_nul_of_words hnul (hwords ▸ List.mem_cons_of_mem _ (List.mem_cons_self ..))
  have hchannel' : 0 ∉ channel' :=
    not_nul_of_words hnul' (hwords' ▸ List.mem_cons_of_mem _ (List.mem_cons_self ..))
  rw [handleCommand_subscribe hnul hauth hwords, handleCommand_subscribe hnul' hauth hwords',
    hsubscription, Option.isSome_none, if_neg Bool.false_ne_true, if_neg Bool.false_ne_true,
    (ofBuffer_take_eq_iff hchannel).mpr (hplain.subscribe _ _ hwords hsubscription),
    (ofBuffer_take_eq_iff hchannel').mpr (hplain'.subscribe _ _ hwords' hsubscription)] at h
  rw [← ofBuffer_bytes hchannel, HandlerPc.callSubscribe.inj h, ofBuffer_bytes hchannel']

end

/-- The line `SUBSCRIBE aa...a` with a channel of `m` bytes. -/
def subscribeLine (m : Nat) : List UInt8 := ascii "SUBSCRIBE " ++ List.replicate m 97

/-- A connection after `AUTH`. -/
def authenticatedConnection : Connection := { newConnection with authenticated := true }

/-- The line `SUBSCRIBE a` is one command with the channel `a`. -/
theorem oneLine_subscribe :
    OneCommand byteByByte (subscribeLine 1 ++ [10]) 0 (subscribeLine 1) ∧
      ExactArguments (subscribeLine 1)
        (handleCommand none authenticatedConnection (subscribeLine 1)).handler := by
  have hwords : words (subscribeLine 1) = [ascii "SUBSCRIBE", [97]] := by decide +kernel
  have hdrop : (subscribeLine 1 ++ [10]).drop 0 = subscribeLine 1 ++ 10 :: [] := rfl
  refine (oneLine_iff hdrop (by decide +kernel) (by decide +kernel) (by decide +kernel)
    rfl).mpr ⟨by decide +kernel, ?_, ?_⟩
  · intro channel others h _
    rw [hwords] at h
    obtain ⟨rfl, -⟩ := List.cons.inj (List.cons.inj h).2
    decide
  · intro channel others h
    rw [hwords] at h
    exact absurd (List.cons.inj h).1 (by decide +kernel)

/-- A channel of 256 bytes is cut off: the handler subscribes to its first 255 bytes, which is
another channel. -/
theorem long_channel_is_cut :
    (handleCommand none authenticatedConnection (subscribeLine 256)).handler =
      (handleCommand none authenticatedConnection (subscribeLine 255)).handler ∧
    ¬ (OneCommand byteByByte (subscribeLine 256 ++ [10]) 0 (subscribeLine 256) ∧
      ExactArguments (subscribeLine 256)
        (handleCommand none authenticatedConnection (subscribeLine 256)).handler) := by
  have hwords : words (subscribeLine 256) = [ascii "SUBSCRIBE", List.replicate 256 97] := by
    decide +kernel
  refine ⟨by decide +kernel, ?_⟩
  rintro ⟨-, hexact⟩
  have hlong := (exactSubscribe_iff (by decide +kernel) rfl hwords).mp
    (hexact.subscribe (by rw [hwords]; rfl)) rfl
  exact absurd hlong (by decide +kernel)

end Miez.Proofs.NetworkServer
