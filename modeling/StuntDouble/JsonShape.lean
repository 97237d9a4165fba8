import StuntDouble.JsonText

/-!
The shape of JSON texts. A text that is read closes every bracket and every string that it
opens, so no proper part of the text of an object is read; and the compact writer stays on
one line.
-/
namespace StuntDouble.JsonText

section Brackets

/-- Where a scan of a text stands: outside of a string, inside, or after a backslash. -/
inductive Mode
  | outside
  | inside
  | escaped
deriving DecidableEq, Repr

def scanChar (state : Mode × ℕ) (c : Char) : Mode × ℕ :=
  match state.1 with
  | .outside =>
    if c = '"' then (.inside, state.2)
    else if c = '{' ∨ c = '[' then (.outside, state.2 + 1)
    else if c = '}' ∨ c = ']' then (.outside, state.2 - 1)
    else state
  | .inside =>
    if c = '"' then (.outside, state.2)
    else if c = '\\' then (.escaped, state.2)
    else state
  | .escaped => (.inside, state.2)

def scan (state : Mode × ℕ) (text : List Char) : Mode × ℕ := text.foldl scanChar state

/-- A text that closes every bracket and every string that it opens. -/
def Closed (text : List Char) : Prop := text ≠ [] ∧ scan (.outside, 0) text = (.outside, 0)

/-- A text that closes what it opens, and no bracket that was open before. -/
structure Even (text : List Char) : Prop where
  back : ∀ depth, scan (.outside, depth) text = (.outside, depth)
  above : ∀ depth cut, cut <+: text → depth ≤ (scan (.outside, depth) cut).2

theorem scan_append (state : Mode × ℕ) (text more : List Char) :
    scan state (text ++ more) = scan (scan state text) more := List.foldl_append

theorem prefix_append_cases {cut text more : List Char} (h : cut <+: text ++ more) :
    cut <+: text ∨ ∃ tail, cut = text ++ tail ∧ tail <+: more := by
  obtain ⟨back, hback⟩ := h
  rcases List.append_eq_append_iff.mp hback with ⟨tail, htext, -⟩ | ⟨tail, hcut, hmore⟩
  · exact Or.inl ⟨tail, htext.symm⟩
  · exact Or.inr ⟨tail, hcut, back, hmore.symm⟩

theorem Even.append {text more : List Char} (h : Even text) (hmore : Even more) :
    Even (text ++ more) := by
  constructor
  · intro depth
    rw [scan_append, h.back, hmore.back]
  · intro depth cut hcut
    rcases prefix_append_cases hcut with hcut | ⟨tail, rfl, htail⟩
    · exact h.above depth cut hcut
    · rw [scan_append, h.back]
      exact hmore.above depth tail htail

/-- A character that neither opens nor closes anything. -/
def Calm (c : Char) : Prop := c ≠ '"' ∧ c ≠ '{' ∧ c ≠ '[' ∧ c ≠ '}' ∧ c ≠ ']'

theorem scan_calm {text : List Char} (h : ∀ c ∈ text, Calm c) (depth : ℕ) :
    scan (.outside, depth) text = (.outside, depth) := by
  induction text with
  | nil => rfl
  | cons c text ih =>
    obtain ⟨hquote, hbrace, hbracket, hbrace', hbracket'⟩ := h c (by simp)
    have hstep : scanChar (.outside, depth) c = (.outside, depth) := by
      simp only [scanChar, if_neg hquote, hbrace, hbracket, hbrace', hbracket', or_self, if_false]
    show scan (scanChar (.outside, depth) c) text = _
    rw [hstep]
    exact ih fun c hc => h c (List.mem_cons_of_mem _ hc)

theorem even_calm {text : List Char} (h : ∀ c ∈ text, Calm c) : Even text := by
  constructor
  · exact scan_calm h
  · rintro depth cut hcut
    rw [scan_calm (fun c hc => h c (hcut.subset hc))]

/-- A text between two characters, the second of which undoes the first. -/
theorem even_between (state : ℕ → Mode × ℕ) {inner : List Char} {o c : Char}
    (hopen : ∀ depth, scanChar (.outside, depth) o = state depth)
    (hback : ∀ depth, scan (state depth) inner = state depth)
    (habove : ∀ depth cut, cut <+: inner → depth ≤ (scan (state depth) cut).2)
    (hclose : ∀ depth, scanChar (state depth) c = (.outside, depth)) :
    Even (o :: (inner ++ [c])) := by
  constructor
  · intro depth
    show scan (scanChar (.outside, depth) o) (inner ++ [c]) = _
    rw [hopen, scan_append, hback]
    exact hclose depth
  · intro depth cut hcut
    cases cut with
    | nil => exact le_refl depth
    | cons d cut =>
      obtain ⟨rfl, hrest⟩ := List.cons_prefix_cons.mp hcut
      show depth ≤ (scan (scanChar (.outside, depth) d) cut).2
      rw [hopen]
      rcases prefix_append_cases hrest with hcut | ⟨tail, rfl, htail⟩
      · exact habove depth cut hcut
      · rw [scan_append, hback]
        cases tail with
        | nil => exact habove depth [] List.nil_prefix
        | cons e tail =>
          obtain ⟨rfl, hnil⟩ := List.cons_prefix_cons.mp htail
          cases List.prefix_nil.mp hnil
          show depth ≤ (scanChar (state depth) e).2
          rw [hclose]

/-- A text between two brackets. -/
theorem Even.enclosed {inner : List Char} (h : Even inner) {o c : Char} (ho : o = '{' ∨ o = '[')
    (hc : c = '}' ∨ c = ']') : Even (o :: (inner ++ [c])) := by
  apply even_between (fun depth => (.outside, depth + 1))
  · intro depth
    rcases ho with rfl | rfl <;> rfl
  · intro depth
    exact h.back (depth + 1)
  · intro depth cut hcut
    exact (Nat.le_succ depth).trans (h.above (depth + 1) cut hcut)
  · intro depth
    rcases hc with rfl | rfl <;> rfl

/-- What may stand inside a string. -/
structure Inside (text : List Char) : Prop where
  back : ∀ depth, scan (.inside, depth) text = (.inside, depth)
  level : ∀ depth cut, cut <+: text → (scan (.inside, depth) cut).2 = depth

theorem Inside.quoted {inner : List Char} (h : Inside inner) : Even ('"' :: (inner ++ ['"'])) := by
  apply even_between (fun depth => (.inside, depth)) (fun _ => rfl) h.back _ (fun _ => rfl)
  intro depth cut hcut
  rw [h.level depth cut hcut]

theorem inside_nil : Inside [] := by
  constructor
  · intro depth
    rfl
  · intro depth cut hcut
    cases List.prefix_nil.mp hcut
    rfl

theorem Inside.plain {c : Char} (hquote : c ≠ '"') (hslash : c ≠ '\\') {text : List Char}
    (h : Inside text) : Inside (c :: text) := by
  have hstep (depth : ℕ) : scanChar (.inside, depth) c = (.inside, depth) := by
    simp only [scanChar, if_neg hquote, if_neg hslash]
  constructor
  · intro depth
    show scan (scanChar (.inside, depth) c) text = _
    rw [hstep, h.back]
  · intro depth cut hcut
    cases cut with
    | nil => rfl
    | cons d cut =>
      obtain ⟨rfl, hrest⟩ := List.cons_prefix_cons.mp hcut
      show (scan (scanChar (.inside, depth) d) cut).2 = depth
      rw [hstep]
      exact h.level depth cut hrest

theorem Inside.escape (e : Char) {text : List Char} (h : Inside text) :
    Inside ('\\' :: e :: text) := by
  have hstep (depth : ℕ) : scanChar (scanChar (.inside, depth) '\\') e = (.inside, depth) := rfl
  constructor
  · intro depth
    show scan (scanChar (scanChar (.inside, depth) '\\') e) text = _
    rw [hstep, h.back]
  · intro depth cut hcut
    match cut with
    | [] => rfl
    | [d] =>
      obtain ⟨hslash, -⟩ := List.cons_prefix_cons.mp hcut
      rw [hslash]
      rfl
    | d :: f :: cut =>
      obtain ⟨hslash, hmore⟩ := List.cons_prefix_cons.mp hcut
      obtain ⟨hescape, hrest⟩ := List.cons_prefix_cons.mp hmore
      rw [hslash, hescape]
      show (scan (scanChar (scanChar (.inside, depth) '\\') e) cut).2 = depth
      rw [hstep]
      exact h.level depth cut hrest

end Brackets

section Readers

variable {readFloat : List Char → Option UInt64}

theorem calm_of_isSpace {c : Char} (h : isSpace c = true) : Calm c := by
  refine ⟨?_, ?_, ?_, ?_, ?_⟩ <;> (rintro rfl; cases h)

theorem calm_of_isNumeric {c : Char} (h : isNumeric c = true) : Calm c := by
  refine ⟨?_, ?_, ?_, ?_, ?_⟩ <;> (rintro rfl; cases h)

theorem even_nil : Even [] := even_calm (by simp)

theorem skip_split (text : List Char) : ∃ space, text = space ++ skip text ∧ Even space := by
  refine ⟨text.takeWhile isSpace, List.takeWhile_append_dropWhile.symm, even_calm ?_⟩
  intro c hc
  exact calm_of_isSpace (List.mem_takeWhile_imp hc)

theorem expect_split {c : Char} {text rest : List Char} (h : expect c text = some rest) :
    ∃ space, text = space ++ c :: rest ∧ Even space := by
  obtain ⟨space, hspace, heven⟩ := skip_split text
  unfold expect at h
  split at h
  · cases h
  · rename_i d more hskip
    split at h
    · rename_i hd
      cases h
      rw [hskip, hd] at hspace
      exact ⟨space, hspace, heven⟩
    · cases h

theorem dropWord_split {word text rest : List Char} (h : dropWord word text = some rest) :
    text = word ++ rest := by
  induction word generalizing text with
  | nil =>
    cases h
    rfl
  | cons c word ih =>
    cases text with
    | nil => cases h
    | cons d text =>
      rw [dropWord] at h
      split at h
      · rename_i hd
        rw [hd, ih h, List.cons_append]
      · cases h

theorem rawString_split {text : List Char} {raw rest : List Char}
    (h : rawString text = some (raw, rest)) : text = raw ++ '"' :: rest ∧ Inside raw := by
  fun_induction rawString text generalizing raw with
  | case1 => cases h
  | case2 rest' =>
    cases h
    exact ⟨rfl, inside_nil⟩
  | case3 hquote => cases h
  | case4 e more hquote ih =>
    obtain ⟨⟨front, back⟩, hread, heq⟩ := Option.map_eq_some_iff.mp h
    cases heq
    obtain ⟨hmore, hinside⟩ := ih hread
    exact ⟨by rw [hmore]; rfl, hinside.escape e⟩
  | case5 c rest' hquote hslash hcontrol => cases h
  | case6 c rest' hquote hslash hcontrol ih =>
    obtain ⟨⟨front, back⟩, hread, heq⟩ := Option.map_eq_some_iff.mp h
    cases heq
    obtain ⟨hmore, hinside⟩ := ih hread
    exact ⟨by rw [hmore]; rfl, hinside.plain hquote hslash⟩

/-- A string literal takes an even text, with the opening quote. -/
theorem string_split {text rest : List Char} {s : String} (h : string text = some (s, rest)) :
    ∃ raw, text = raw ++ '"' :: rest ∧ Even ('"' :: (raw ++ ['"'])) := by
  unfold string at h
  split at h
  · cases h
  · rename_i raw back hraw
    obtain ⟨chars, -, heq⟩ := Option.map_eq_some_iff.mp h
    cases heq
    obtain ⟨htext, hinside⟩ := rawString_split hraw
    exact ⟨raw, htext, hinside.quoted⟩

/-- What a reader takes off the front of a text is even. -/
def Takes (text rest : List Char) : Prop := ∃ used, text = used ++ rest ∧ Even used

theorem number_takes {text rest : List Char} {v : Json}
    (h : number readFloat text = some (v, rest)) : Takes text rest := by
  obtain ⟨n, -, heq⟩ := Option.map_eq_some_iff.mp h
  cases heq
  refine ⟨text.takeWhile isNumeric, List.takeWhile_append_dropWhile.symm, even_calm ?_⟩
  intro c hc
  exact calm_of_isNumeric (List.mem_takeWhile_imp hc)

theorem Takes.trans {text middle rest : List Char} (h : Takes text middle)
    (hrest : Takes middle rest) : Takes text rest := by
  obtain ⟨used, rfl, heven⟩ := h
  obtain ⟨more, rfl, hmore⟩ := hrest
  exact ⟨used ++ more, by rw [List.append_assoc], heven.append hmore⟩

theorem takes_calm {text rest : List Char} (c : Char) (hc : Calm c)
    (h : expect c text = some rest) : Takes text rest := by
  obtain ⟨space, htext, heven⟩ := expect_split h
  refine ⟨space ++ [c], ?_, heven.append (even_calm ?_)⟩
  · rw [htext, List.append_assoc]
    rfl
  · intro d hd
    cases List.mem_singleton.mp hd
    exact hc

/-- A reader that takes an even text up to a closing bracket. -/
def TakesTo (close : Char) (text rest : List Char) : Prop :=
  ∃ used, text = used ++ close :: rest ∧ Even used

theorem expect_takesTo {c : Char} {text rest : List Char} (h : expect c text = some rest) :
    TakesTo c text rest := expect_split h

theorem Takes.toClose {close : Char} {text middle rest : List Char} (h : Takes text middle)
    (hrest : TakesTo close middle rest) : TakesTo close text rest := by
  obtain ⟨used, rfl, heven⟩ := h
  obtain ⟨more, rfl, hmore⟩ := hrest
  exact ⟨used ++ more, by rw [List.append_assoc], heven.append hmore⟩

theorem TakesTo.enclosed {o close : Char} {text rest : List Char} (h : TakesTo close text rest)
    (ho : o = '{' ∨ o = '[') (hclose : close = '}' ∨ close = ']') : Takes (o :: text) rest := by
  obtain ⟨used, rfl, heven⟩ := h
  refine ⟨o :: (used ++ [close]), ?_, heven.enclosed ho hclose⟩
  simp

theorem word_takes {c : Char} {word text rest : List Char} {v w : Json}
    (hcalm : ∀ d ∈ c :: word, Calm d)
    (h : (dropWord word text).map (fun back => (w, back)) = some (v, rest)) :
    Takes (c :: text) rest := by
  obtain ⟨back, hread, heq⟩ := Option.map_eq_some_iff.mp h
  cases heq
  exact ⟨c :: word, by rw [dropWord_split hread]; rfl, even_calm hcalm⟩

theorem string_takes {text rest : List Char} {s : String} (h : string text = some (s, rest)) :
    Takes ('"' :: text) rest := by
  obtain ⟨raw, htext, heven⟩ := string_split h
  exact ⟨_, by rw [htext]; simp, heven⟩

theorem key_takes {text rest : List Char} {key : String}
    (h : (expect '"' text).bind string = some (key, rest)) : Takes text rest := by
  obtain ⟨start, hquote, hkey⟩ := Option.bind_eq_some_iff.mp h
  obtain ⟨space, htext, hspace⟩ := expect_split hquote
  obtain ⟨raw, hstart, heven⟩ := string_split hkey
  refine ⟨space ++ ('"' :: (raw ++ ['"'])), ?_, hspace.append heven⟩
  rw [htext, hstart]
  simp

section Fuel

variable {fuel : ℕ} {text rest : List Char}

theorem value_takes_step {v : Json}
    (helements : ∀ text items rest, elements readFloat fuel text = some (items, rest) →
      TakesTo ']' text rest)
    (hmembers : ∀ text entries rest, members readFloat fuel text = some (entries, rest) →
      TakesTo '}' text rest)
    (h : value readFloat (fuel + 1) text = some (v, rest)) : Takes text rest := by
  obtain ⟨space, htext, hspace⟩ := skip_split text
  have hfront : Takes text (skip text) := ⟨space, htext, hspace⟩
  refine hfront.trans ?_
  rw [value] at h
  cases hskip : skip text with
  | nil =>
    rw [hskip] at h
    cases h
  | cons c more =>
    rw [hskip] at h
    simp only at h
    -- one case for each first character of a value
    split at h
    · rename_i hc
      split at h
      · rename_i back hclose
        cases h
        exact (expect_takesTo hclose).enclosed (Or.inl hc) (Or.inl rfl)
      · obtain ⟨⟨entries, back⟩, hread, heq⟩ := Option.map_eq_some_iff.mp h
        cases heq
        exact (hmembers _ _ _ hread).enclosed (Or.inl hc) (Or.inl rfl)
    split at h
    · rename_i hc
      split at h
      · rename_i back hclose
        cases h
        exact (expect_takesTo hclose).enclosed (Or.inr hc) (Or.inr rfl)
      · obtain ⟨⟨items, back⟩, hread, heq⟩ := Option.map_eq_some_iff.mp h
        cases heq
        exact (helements _ _ _ hread).enclosed (Or.inr hc) (Or.inr rfl)
    split at h
    · rename_i hc
      subst hc
      obtain ⟨⟨s, back⟩, hread, heq⟩ := Option.map_eq_some_iff.mp h
      cases heq
      exact string_takes hread
    split at h
    · rename_i hc
      subst hc
      exact word_takes (by simp [Calm]) h
    split at h
    · rename_i hc
      subst hc
      exact word_takes (by simp [Calm]) h
    split at h
    · rename_i hc
      subst hc
      exact word_takes (by simp [Calm]) h
    exact number_takes h

theorem elements_takes_step {items : List Json}
    (hvalue : ∀ text v rest, value readFloat fuel text = some (v, rest) → Takes text rest)
    (helements : ∀ text items rest, elements readFloat fuel text = some (items, rest) →
      TakesTo ']' text rest)
    (h : elements readFloat (fuel + 1) text = some (items, rest)) : TakesTo ']' text rest := by
  rw [elements] at h
  split at h
  · cases h
  · rename_i item middle hread
    have hitem := hvalue _ _ _ hread
    split at h
    · rename_i back hclose
      cases h
      exact hitem.toClose (expect_takesTo hclose)
    · rename_i back hcomma
      obtain ⟨⟨more, last⟩, hmore, heq⟩ := Option.map_eq_some_iff.mp h
      cases heq
      have hnext := hitem.trans (takes_calm ',' (by simp [Calm]) hcomma)
      exact hnext.toClose (helements _ _ _ hmore)
    · cases h

theorem members_takes_step {entries : List (String × Json)}
    (hvalue : ∀ text v rest, value readFloat fuel text = some (v, rest) → Takes text rest)
    (hmembers : ∀ text entries rest, members readFloat fuel text = some (entries, rest) →
      TakesTo '}' text rest)
    (h : members readFloat (fuel + 1) text = some (entries, rest)) : TakesTo '}' text rest := by
  rw [members] at h
  split at h
  · cases h
  · rename_i key middle hkey
    split at h
    · cases h
    · rename_i item after hread
      obtain ⟨start, hcolon, hread⟩ := Option.bind_eq_some_iff.mp hread
      have hname := (key_takes hkey).trans (takes_calm ':' (by simp [Calm]) hcolon)
      have hitem := hname.trans (hvalue _ _ _ hread)
      split at h
      · rename_i back hclose
        cases h
        exact hitem.toClose (expect_takesTo hclose)
      · rename_i back hcomma
        obtain ⟨⟨more, last⟩, hmore, heq⟩ := Option.map_eq_some_iff.mp h
        cases heq
        have hnext := hitem.trans (takes_calm ',' (by simp [Calm]) hcomma)
        exact hnext.toClose (hmembers _ _ _ hmore)
      · cases h

end Fuel

/-- Every reader takes an even text, which ends with the closing bracket if there is one. -/
theorem value_takes (fuel : ℕ) :
    (∀ text v rest, value readFloat fuel text = some (v, rest) → Takes text rest) ∧
    (∀ text items rest, elements readFloat fuel text = some (items, rest) →
      TakesTo ']' text rest) ∧
    (∀ text entries rest, members readFloat fuel text = some (entries, rest) →
      TakesTo '}' text rest) := by
  induction fuel with
  | zero =>
    refine ⟨?_, ?_, ?_⟩ <;> intro text read rest h <;> cases h
  | succ fuel ih =>
    obtain ⟨hvalue, helements, hmembers⟩ := ih
    exact ⟨fun _ _ _ h => value_takes_step helements hmembers h,
      fun _ _ _ h => elements_takes_step hvalue helements h,
      fun _ _ _ h => members_takes_step hvalue hmembers h⟩

/-- A text that is read closes whatever it opens. -/
theorem parse_closed {text : List Char} {v : Json} (h : parse readFloat text = some v) :
    Closed text := by
  unfold parse at h
  split at h
  · cases h
  · rename_i read rest hvalue
    split at h
    · rename_i hrest
      obtain ⟨used, htext, heven⟩ := (value_takes _).1 _ _ _ hvalue
      obtain ⟨space, hspace, hcalm⟩ := skip_split rest
      rw [hrest, List.append_nil] at hspace
      subst hspace
      constructor
      · rintro rfl
        rw [value] at hvalue
        cases hvalue
      · rw [htext]
        exact (heven.append hcalm).back 0
    · cases h

theorem even_compactEntries (floatText : UInt64 → String) (entries : List (String × Json))
    (h : PlainEntries entries) : Even (Json.compactEntries floatText entries) := by
  by_cases hne : entries = []
  · subst hne
    exact even_nil
  · have hread := members_compact floatText (fun _ => none) entries hne h _ (le_refl _) []
    obtain ⟨used, htext, heven⟩ := (value_takes _).2.2 _ _ _ hread
    rw [List.append_cancel_right htext]
    exact heven

/-- A proper part of the text of an object leaves something open. -/
theorem not_closed_of_prefix (floatText : UInt64 → String) {entries : List (String × Json)}
    (h : Plain (.object entries)) {cut : List Char}
    (hcut : cut <+: Json.compactChars floatText (.object entries))
    (hne : cut ≠ Json.compactChars floatText (.object entries)) : ¬ Closed cut := by
  have htext : Json.compactChars floatText (.object entries) =
      '{' :: (Json.compactEntries floatText entries ++ ['}']) := by
    rw [Json.compactChars]
    rfl
  rw [htext] at hcut hne
  rintro ⟨hnil, hscan⟩
  cases cut with
  | nil => exact hnil rfl
  | cons c cut =>
    obtain ⟨hc, hrest⟩ := List.cons_prefix_cons.mp hcut
    rw [hc] at hne hscan
    rcases prefix_append_cases hrest with hinner | ⟨tail, htail, hclose⟩
    · have habove : 1 ≤ (scan (.outside, 1) cut).2 :=
        (even_compactEntries floatText entries h).above 1 cut hinner
      have hscan : scan (.outside, 1) cut = (.outside, 0) := hscan
      rw [hscan] at habove
      exact absurd habove (Nat.not_succ_le_zero 0)
    · cases tail with
      | nil =>
        have hback : scan (.outside, 1) cut = (.outside, 1) := by
          rw [htail, List.append_nil]
          exact (even_compactEntries floatText entries h).back 1
        have hscan : scan (.outside, 1) cut = (.outside, 0) := hscan
        rw [hback] at hscan
        cases hscan
      | cons d tail =>
        obtain ⟨hd, hend⟩ := List.cons_prefix_cons.mp hclose
        rw [htail, hd, List.prefix_nil.mp hend] at hne
        exact hne rfl

end Readers

section Printable

variable (floatText : UInt64 → String)

theorem escapeChar_printable (c : Char) : ∀ d ∈ Json.escapeChar c, 32 ≤ d.toNat := by
  rcases escapeChar_cases c with ⟨e, he, -, hsimple⟩ | ⟨hc, he⟩ | ⟨he, -, -, hcontrol⟩
  · have hletter : 32 ≤ e.toNat := by
      by_contra hlt
      have hne {d : Char} (hd : 32 ≤ d.toNat) : e ≠ d := by
        rintro rfl
        exact hlt hd
      rw [simpleEscape, if_neg, if_neg (hne (by decide)), if_neg (hne (by decide)),
        if_neg (hne (by decide)), if_neg (hne (by decide)), if_neg (hne (by decide))] at hsimple
      · cases hsimple
      · exact fun h => h.elim (hne (by decide)) fun h => h.elim (hne (by decide)) (hne (by decide))
    rw [he]
    intro d hd
    rcases List.mem_cons.mp hd with rfl | hd
    · decide
    · cases List.mem_singleton.mp hd
      exact hletter
  · obtain ⟨-, -, hhigh, -⟩ := hexDigit_plain (n := c.toNat / 16) (by omega)
    obtain ⟨-, -, hlow, -⟩ := hexDigit_plain (n := c.toNat % 16) (by omega)
    rw [he]
    simp only [List.mem_cons, List.not_mem_nil, or_false, forall_eq_or_imp, forall_eq]
    exact ⟨by decide, by decide, by decide, by decide, Nat.le_of_not_lt hhigh,
      Nat.le_of_not_lt hlow⟩
  · rw [he]
    intro d hd
    cases List.mem_singleton.mp hd
    exact Nat.le_of_not_lt hcontrol

theorem quote_printable (s : String) : ∀ d ∈ Json.quote s, 32 ≤ d.toNat := by
  intro d hd
  rw [Json.quote] at hd
  rcases List.mem_append.mp hd with hd | hd
  · rcases List.mem_cons.mp hd with rfl | hd
    · decide
    · obtain ⟨c, -, hc⟩ := List.mem_flatMap.mp hd
      exact escapeChar_printable c d hc
  · cases List.mem_singleton.mp hd
    decide

theorem printable_of_isNumeric {c : Char} (h : isNumeric c = true) : 32 ≤ c.toNat := by
  simp only [isNumeric, Bool.or_eq_true, beq_iff_eq] at h
  rcases h with ((((h | rfl) | rfl) | rfl) | rfl) | rfl
  · have hdigit : 48 ≤ c.toNat := (Char.isDigit_iff_toNat.mp h).1
    omega
  all_goals decide

mutual

theorem compactChars_printable (v : Json) (h : Plain v) :
    ∀ d ∈ Json.compactChars floatText v, 32 ≤ d.toNat := by
  match v with
  | .null => simp [Json.compactChars]
  | .bool true => simp [Json.compactChars]
  | .bool false => simp [Json.compactChars]
  | .number n =>
    intro d hd
    exact printable_of_isNumeric (numberText_numeric floatText h d hd)
  | .string s => exact quote_printable s
  | .array items =>
    intro d hd
    rw [Json.compactChars] at hd
    rcases List.mem_append.mp hd with hd | hd
    · rcases List.mem_cons.mp hd with rfl | hd
      · decide
      · exact compactItems_printable items h d hd
    · cases List.mem_singleton.mp hd
      decide
  | .object entries =>
    intro d hd
    rw [Json.compactChars] at hd
    rcases List.mem_append.mp hd with hd | hd
    · rcases List.mem_cons.mp hd with rfl | hd
      · decide
      · exact compactEntries_printable entries h d hd
    · cases List.mem_singleton.mp hd
      decide

theorem compactItems_printable (items : List Json) (h : PlainItems items) :
    ∀ d ∈ Json.compactItems floatText items, 32 ≤ d.toNat := by
  match items with
  | [] => simp [Json.compactItems]
  | [item] => exact compactChars_printable item h.1
  | item :: next :: rest =>
    intro d hd
    rw [Json.compactItems] at hd
    rcases List.mem_append.mp hd with hd | hd
    · exact compactChars_printable item h.1 d hd
    · rcases List.mem_cons.mp hd with rfl | hd
      · decide
      · exact compactItems_printable (next :: rest) h.2 d hd

theorem compactEntries_printable (entries : List (String × Json)) (h : PlainEntries entries) :
    ∀ d ∈ Json.compactEntries floatText entries, 32 ≤ d.toNat := by
  match entries with
  | [] => simp [Json.compactEntries]
  | [(key, item)] =>
    intro d hd
    rw [Json.compactEntries] at hd
    rcases List.mem_append.mp hd with hd | hd
    · exact quote_printable key d hd
    · rcases List.mem_cons.mp hd with rfl | hd
      · decide
      · exact compactChars_printable item h.1 d hd
  | (key, item) :: next :: rest =>
    intro d hd
    rw [Json.compactEntries] at hd
    rcases List.mem_append.mp hd with hd | hd
    · rcases List.mem_append.mp hd with hd | hd
      · exact quote_printable key d hd
      · rcases List.mem_cons.mp hd with rfl | hd
        · decide
        · exact compactChars_printable item h.1 d hd
    · rcases List.mem_cons.mp hd with rfl | hd
      · decide
      · exact compactEntries_printable (next :: rest) h.2 d hd

end

/-- The text of a value is on one line. -/
theorem newline_not_mem_compact (v : Json) (h : Plain v) :
    '\n' ∉ Json.compactChars floatText v := by
  intro hmem
  exact absurd (compactChars_printable floatText v h '\n' hmem) (by decide)

end Printable

/-- A reader of JSON texts. It reads back what the compact writer puts out, and takes no text
that leaves a bracket or a string open. -/
structure Standard (floatText : UInt64 → String) (parse : List Char → Option Json) : Prop where
  reads : ∀ v, Plain v → ∀ space, (∀ c ∈ space, isSpace c = true) →
    parse (Json.compactChars floatText v ++ space) = some v
  closed : ∀ text v, parse text = some v → Closed text

theorem standard_parse (floatText : UInt64 → String) (readFloat : List Char → Option UInt64) :
    Standard floatText (parse readFloat) :=
  ⟨fun v h _ hspace => parse_compact floatText readFloat v h hspace, fun _ _ => parse_closed⟩

end StuntDouble.JsonText
