import ApprovalFlow.PageChange.Options

/-!
# The command line of a change

Every page and every text can be given to the program on a command line (`ofWords_commandLine`), but for two
dashes: those part the options from what follows, even after an equals sign, so that no command line gives
them as a page or a text (`ofWords_ne_dashes`).
-/

namespace ApprovalFlow.PageChange

def commandLine (page text : String) (deny : Bool) : List String :=
  ["--page=" ++ page, "--text=" ++ text] ++ if deny then ["--deny"] else []

/-! ## Every page and text -/

theorem classify_page (page : String) :
    classify ("--page=" ++ page) = .ok (.switch .page (some page.toList)) := by
  unfold classify
  rw [String.toList_append]
  rfl

theorem classify_text (text : String) :
    classify ("--text=" ++ text) = .ok (.switch .text (some text.toList)) := by
  unfold classify
  rw [String.toList_append]
  rfl

theorem classifyAll_cons {s : String} (hs : s ≠ "--") (rest : List String) :
    classifyAll (s :: rest) = do return (← classify s) :: (← classifyAll rest) := by
  rw [classifyAll]
  exact hs

/-- An option with its value is longer than two dashes. -/
theorem append_ne_dashes {name : String} (hn : 2 < name.length) (value : String) :
    name ++ value ≠ "--" := by
  intro h
  have hl := congrArg String.length h
  rw [String.length_append, show "--".length = 2 from rfl] at hl
  omega

theorem ofValue_toList {s : String} (hs : s ≠ "--") : Given.ofValue s.toList = .text s := by
  unfold Given.ofValue
  rw [if_neg, String.ofList_toList]
  exact fun h => hs (String.toList_inj.mp h)

/-- A command line for each page and text. Two dashes for the page give none. -/
theorem ofWords_commandLine (page : String) {text : String} (ht : text ≠ "--") (deny : Bool) :
    Options.ofWords (commandLine page text deny) = .ok ⟨.ofValue page.toList, .text text, deny⟩ := by
  have hwords : classifyAll (commandLine page text deny) =
      .ok (.switch .page (some page.toList) :: .switch .text (some text.toList) ::
        if deny then [.switch .deny none] else []) := by
    unfold commandLine
    rw [List.cons_append, List.cons_append, List.nil_append,
      classifyAll_cons (append_ne_dashes (by decide) page), classify_page,
      classifyAll_cons (append_ne_dashes (by decide) text), classify_text]
    cases deny <;> rfl
  unfold Options.ofWords
  rw [hwords]
  cases deny <;>
    exact congrArg (fun g => Except.ok (Options.mk (.ofValue page.toList) g _)) (ofValue_toList ht)

/-! ## Two dashes -/

/-- Results one after another are there if each of them is. -/
theorem exists_of_bind {ε α β : Type} {r : Except ε α} {f : α → Except ε β} {b : β}
    (h : r >>= f = .ok b) : ∃ a, r = .ok a ∧ f a = .ok b := by
  cases r with
  | error x => cases h
  | ok a => exact ⟨a, rfl, h⟩

theorem ofValue_ne_dashes (cs : List Char) : Given.ofValue cs ≠ .text "--" := by
  unfold Given.ofValue
  split
  · exact fun h => nomatch h
  · rename_i hcs
    intro h
    exact hcs (String.ofList_inj.mp (Given.text.inj h))

theorem plain_not_mem_matching (cs : List Char) (s : String) : .plain s ∉ matching cs := by
  unfold matching
  split
  · simp
  · intro h
    obtain ⟨_, -, hx⟩ := List.mem_filterMap.mp h
    dsimp only at hx
    split at hx
    · cases hx
    · split at hx <;> cases hx
  · simp

/-- A word is plain only as it stands. -/
theorem eq_of_classify_plain {s t : String} (h : classify s = .ok (.plain t)) : t = s := by
  unfold classify at h
  dsimp only at h
  -- A word with a dash is kept as it stands only if it is short for no option.
  split at h
  case h_2 => exact (Word.plain.inj (Except.ok.inj h)).symm
  split at h
  · cases h
  · split at h <;> cases h
  · split at h
    · rename_i w hw
      cases h
      exact absurd (hw ▸ List.mem_cons_self) (plain_not_mem_matching s.toList t)
    · cases h
    · split at h
      · exact (Word.plain.inj (Except.ok.inj h)).symm
      · cases h

/-- Two dashes are a plain word only after the separator. -/
def Parted (ws : List Word) : Prop :=
  ∀ before after, ws = before ++ .plain "--" :: after → .separator ∈ before

theorem Parted.tail {w : Word} {ws : List Word} (h : Parted (w :: ws)) (hw : w ≠ .separator) : Parted ws := by
  intro before after hws
  have hmem := h (w :: before) after (by rw [hws, List.cons_append])
  exact (List.mem_cons.mp hmem).resolve_left fun heq => hw heq.symm

theorem Parted.head_ne {w : Word} {ws : List Word} (h : Parted (w :: ws)) : w ≠ .plain "--" := by
  rintro rfl
  cases h [] ws rfl

theorem parted_classifyAll {words : List String} {ws : List Word} (h : classifyAll words = .ok ws) :
    Parted ws := by
  induction words generalizing ws with
  | nil =>
    cases h
    intro before after hws
    simp at hws
  | cons s rest ih =>
    by_cases hs : s = "--"
    · subst hs
      cases h
      intro before after hws
      cases before with
      | nil => cases hws
      | cons w before =>
        rw [(List.cons.inj hws).1]
        exact List.mem_cons_self
    · rw [classifyAll_cons hs] at h
      obtain ⟨w, hw, h⟩ := exists_of_bind h
      obtain ⟨ws', hrest, h⟩ := exists_of_bind h
      cases h
      intro before after hws
      cases before with
      | nil =>
        cases hws
        exact absurd (eq_of_classify_plain hw).symm hs
      | cons v before =>
        cases hws
        exact List.mem_cons_of_mem w (ih hrest before after rfl)

def Reading.Sound (r : Reading) : Prop := r.page ≠ .text "--" ∧ r.text ≠ some (.text "--")

theorem Reading.sound_init : Reading.Sound {} := ⟨by decide, nofun⟩

theorem Reading.Sound.give {r : Reading} (hr : r.Sound) (x : Switch) {v : Given} (hv : v ≠ .text "--") :
    (r.give x v).Sound := by
  cases x with
  | page => exact ⟨hv, hr.2⟩
  | text => exact ⟨hr.1, fun h => hv (Option.some.inj h)⟩
  | help => exact hr
  | deny => exact hr

theorem Reading.surplus_give (r : Reading) (x : Switch) (v : Given) : (r.give x v).surplus = r.surplus := by
  cases x <;> rfl

/-- A word of no use stays one. -/
theorem surplus_of_readWords {r r' : Reading} {ws : List Word} (h : readWords r ws = .ok r')
    (hr : r.surplus = true) : r'.surplus = true := by
  fun_induction readWords r ws
  case case1 => cases h; exact hr
  case case2 ih => exact ih h rfl
  case case3 ih => exact ih h rfl
  case case4 ih => exact ih h rfl
  case case6 ih => exact ih h (by rw [Reading.surplus_give, hr])
  case case7 ih => exact ih h (by rw [Reading.surplus_give, hr])
  case case10 ih => exact ih h hr
  all_goals cases h

/-- What is read is two dashes nowhere, unless there is a word of no use. -/
theorem sound_of_readWords {r r' : Reading} {ws : List Word} (h : readWords r ws = .ok r') (hr : r.Sound)
    (hp : Parted ws) : r'.surplus = true ∨ r'.Sound := by
  -- By induction along the reading. Words of no use end it as far as this goes; those that are left are
  -- options, with a value of their own or with the plain word after them, which is not two dashes.
  fun_induction readWords r ws
  case case1 => cases h; exact .inr hr
  case case2 => exact .inl (surplus_of_readWords h rfl)
  case case3 => exact .inl (surplus_of_readWords h rfl)
  case case4 => exact .inl (surplus_of_readWords h rfl)
  case case6 ih => exact ih h (hr.give _ (ofValue_ne_dashes _)) (hp.tail nofun)
  case case7 ih =>
    have hp' := hp.tail nofun
    refine ih h (hr.give _ fun hv => hp'.head_ne ?_) (hp'.tail nofun)
    rw [Given.text.inj hv]
  case case10 ih => exact ih h hr (hp.tail nofun)
  all_goals cases h

/-- No command line gives two dashes as a page or as a text. -/
theorem ofWords_ne_dashes {words : List String} {o : Options} (h : Options.ofWords words = .ok o) :
    o.page ≠ .text "--" ∧ o.text ≠ .text "--" := by
  unfold Options.ofWords at h
  obtain ⟨ws, hws, h⟩ := exists_of_bind h
  obtain ⟨r, hr, h⟩ := exists_of_bind h
  split at h
  case h_2 => cases h
  rename_i text ht
  split at h
  case isTrue => cases h
  rename_i hsurplus
  cases h
  have hsound := (sound_of_readWords hr Reading.sound_init (parted_classifyAll hws)).resolve_left hsurplus
  exact ⟨hsound.1, fun htext => hsound.2 (ht.trans (congrArg some htext))⟩

end ApprovalFlow.PageChange
