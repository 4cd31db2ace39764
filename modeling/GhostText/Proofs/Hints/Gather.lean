import GhostText.Hints.Gather
import GhostText.Proofs.Hints.Header

namespace GhostText.Hints

open Text

variable {t rest line type name word before hint title : Text} {hints : List Text}

def IsLine (t : Text) : Prop :=
  t ≠ [] ∧ '\n' ∉ t

instance (t : Text) : Decidable (IsLine t) :=
  inferInstanceAs (Decidable (_ ∧ _))

theorem IsLine.append (ht : IsLine t) (h : '\n' ∉ rest) : IsLine (t ++ rest) :=
  ⟨by simp [ht.1], by simp [ht.2, h]⟩

theorem IsLine.behind (ht : IsLine t) (h : '\n' ∉ before) : IsLine (before ++ t) :=
  ⟨by simp [ht.1], by simp [ht.2, h]⟩

theorem exists_of_map_eq_ok {ε α β : Type} {f : α → β} {x : Except ε α} {b : β} (h : x.map f = .ok b) :
    ∃ a, x = .ok a ∧ f a = b := by
  cases x
  case error => simp [Except.map] at h
  case ok a  => exact ⟨a, rfl, Except.ok.inj h⟩

theorem exists_of_bind_eq_ok {ε α β : Type} {f : α → Except ε β} {x : Except ε α} {b : β} (h : x >>= f = .ok b) :
    ∃ a, x = .ok a ∧ f a = .ok b := by
  cases x
  case error => simp [bind, Except.bind] at h
  case ok a  => exact ⟨a, rfl, h⟩

-- A reader splits what it reads.

theorem append_of_word? (h : word? t = some (word, rest)) : word ++ rest = t := by
  simp only [word?, Option.ite_none_left_eq_some, Option.some.injEq, Prod.mk.injEq] at h
  obtain ⟨-, rfl, rfl⟩ := h
  exact (List.prefix_iff_eq_append.mp (List.takeWhile_prefix isWord))

theorem append_of_arguments? (h : arguments? t = some (word, rest)) : word ++ rest = t := by
  simp only [arguments?] at h
  split at h
  case h_2 => simp at h
  case h_1 t =>
    split at h
    case h_2 => simp at h
    case h_1 close more hd =>
      simp only [Option.ite_none_left_eq_some, Option.some.injEq, Prod.mk.injEq] at h
      obtain ⟨-, rfl, rfl⟩ := h
      have := List.prefix_iff_eq_append.mp (List.takeWhile_prefix (· ≠ '>') (l := t))
      rw [hd] at this
      simpa using this

theorem append_of_type? (h : type? t = some (type, rest)) : type ++ rest = t := by
  simp only [type?, Option.bind_eq_bind, Option.bind_eq_some_iff] at h
  obtain ⟨⟨name, more⟩, hn, h⟩ := h
  rw [← append_of_word? hn]
  split at h
  case h_1 ha =>
    simp only [Option.some.injEq, Prod.mk.injEq] at h
    obtain ⟨rfl, rfl⟩ := h
    rw [List.append_assoc, append_of_arguments? ha]
  case h_2 =>
    simp only [Option.some.injEq, Prod.mk.injEq] at h
    obtain ⟨rfl, rfl⟩ := h
    rfl

theorem blanks_subset (t : Text) : blanks t ⊆ t :=
  (List.dropWhile_suffix isBlank).subset

theorem subset_of_blanks? (h : blanks? t = some rest) : rest ⊆ t := by
  simp only [blanks?] at h
  split at h
  case h_2 => simp at h
  case h_1 c more =>
    simp only [Option.ite_none_right_eq_some, Option.some.injEq] at h
    obtain ⟨-, rfl⟩ := h
    exact List.subset_cons_of_subset c (blanks_subset more)

theorem subset_of_append (h : word ++ rest = t) : word ⊆ t ∧ rest ⊆ t :=
  h ▸ ⟨List.subset_append_left _ _, List.subset_append_right _ _⟩

theorem subset_of_typedName? (h : typedName? t = some (type, name)) : type ⊆ t ∧ name ⊆ t := by
  simp only [typedName?, Option.bind_eq_bind, Option.bind_eq_some_iff] at h
  obtain ⟨⟨type', rest⟩, ht, behind, hb, ⟨name', more⟩, hn, h⟩ := h
  simp only [Option.ite_none_right_eq_some, Option.some.injEq, Prod.mk.injEq] at h
  obtain ⟨-, rfl, rfl⟩ := h
  have ht := subset_of_append (append_of_type? ht)
  have hn := subset_of_append (append_of_word? hn)
  exact ⟨ht.1, List.Subset.trans hn.1 (List.Subset.trans (subset_of_blanks? hb) ht.2)⟩

theorem subset_of_typeFirst? (h : typeFirst? line = some (type, name)) : type ⊆ line ∧ name ⊆ line := by
  have hl := blanks_subset line
  simp only [typeFirst?, Option.orElse_eq_orElse, Option.orElse_eq_or, Option.or_eq_some_iff] at h
  rcases h with h | ⟨-, h⟩
  case inl =>
    simp only [Option.ite_none_right_eq_some, Option.bind_eq_bind, Option.bind_eq_some_iff] at h
    obtain ⟨-, more, hb, h⟩ := h
    have hb := List.Subset.trans (subset_of_blanks? hb) (List.Subset.trans (List.drop_subset 5 _) hl)
    exact (subset_of_typedName? h).imp (List.Subset.trans · hb) (List.Subset.trans · hb)
  case inr => exact (subset_of_typedName? h).imp (List.Subset.trans · hl) (List.Subset.trans · hl)

theorem subset_of_annotation? (h : annotation? t = some type) : type ⊆ t := by
  simp only [annotation?] at h
  split at h
  case h_2 => simp at h
  case h_1 rest hr =>
    have hrest : blanks rest ⊆ t := by
      have := blanks_subset t
      rw [hr] at this
      exact List.Subset.trans (blanks_subset rest) (List.Subset.trans (List.subset_cons_self _ _) this)
    simp only [Option.bind_eq_bind, Option.bind_eq_some_iff, Option.orElse_eq_orElse, Option.orElse_eq_or,
      Option.or_eq_some_iff, Option.ite_none_right_eq_some, Option.some.injEq] at h
    obtain ⟨⟨name, more⟩, hn, h⟩ := h
    have hw := append_of_word? hn
    rcases h with ⟨⟨arguments, behind⟩, ha, -, rfl⟩ | ⟨-, -, rfl⟩
    case inl =>
      have ha : arguments ++ behind = more := append_of_arguments? ha
      rw [← ha, ← List.append_assoc] at hw
      exact List.Subset.trans (subset_of_append hw).1 hrest
    case inr => exact List.Subset.trans (subset_of_append hw).1 hrest

theorem subset_of_keywordFirst? {type : Option Text} (h : keywordFirst? line = some (name, type)) :
    name ⊆ line ∧ ∀ t ∈ type, t ⊆ line := by
  simp only [keywordFirst?, Option.bind_eq_bind, Option.bind_eq_some_iff] at h
  obtain ⟨keyword, -, behind, hb, ⟨name', rest⟩, hn, h⟩ := h
  have hb := List.Subset.trans (subset_of_blanks? hb) (List.Subset.trans (List.drop_subset _ _) (blanks_subset line))
  have hn := subset_of_append (append_of_word? hn)
  split at h
  case h_1 t ha =>
    obtain ⟨rfl, rfl⟩ := Prod.mk.inj (Option.some.inj h)
    simpa using ⟨List.Subset.trans hn.1 hb, List.Subset.trans (subset_of_annotation? ha) (List.Subset.trans hn.2 hb)⟩
  case h_2 =>
    simp only [Option.ite_none_right_eq_some, Option.some.injEq, Prod.mk.injEq] at h
    obtain ⟨-, rfl, rfl⟩ := h
    simpa using List.Subset.trans hn.1 hb

-- What stands in a line has no line break, and each hint has words of its own.

theorem isLine_describeTyped (ht : '\n' ∉ type) (hn : '\n' ∉ name) : IsLine (describeTyped type name) := by
  have hopen : IsLine "  - ".toList := by decide
  have hclass : '\n' ∉ if isDataClass type then " (has getters/setters)".toList else [] := by split <;> decide
  exact (((hopen.append hn).append (by decide)).append ht).append hclass

theorem isLine_of_mem_variablesIn (hl : '\n' ∉ line) (h : hint ∈ variablesIn line) : IsLine hint := by
  have hno {t : Text} (ht : t ⊆ line) : '\n' ∉ t := fun hm => hl (ht hm)
  simp only [variablesIn, List.mem_append] at h
  rcases h with h | h
  case inl =>
    split at h
    case h_2 => simp at h
    case h_1 ht =>
      split at h
      case isTrue  => simp at h
      case isFalse =>
        have ht := subset_of_typeFirst? ht
        obtain rfl := List.mem_singleton.mp h
        exact isLine_describeTyped (hno ht.1) (hno ht.2)
  case inr =>
    split at h
    case h_2 => simp at h
    case h_1 name type hk =>
      have hk := subset_of_keywordFirst? hk
      obtain rfl := List.mem_singleton.mp h
      have hopen : IsLine "  - ".toList := by decide
      have htype : '\n' ∉ type.getD "any".toList := by
        cases ht : type
        case none   => decide
        case some t => exact hno (hk.2 t ht)
      exact ((hopen.append (hno hk.1)).append (by decide)).append htype

theorem subset_of_trailingName? (h : trailingName? t = some name) : name ⊆ t := by
  simp only [trailingName?, Option.ite_none_left_eq_some, Option.some.injEq] at h
  obtain ⟨-, rfl⟩ := h
  intro c hc
  have hc := (List.takeWhile_prefix isWord).subset (List.mem_reverse.mp hc)
  have := (List.dropWhile_suffix isBlank).subset (List.mem_reverse.mp (List.mem_reverse.mp hc))
  exact List.mem_reverse.mp this

theorem subset_of_objectBefore? (h : objectBefore? t = some name) : name ⊆ t := by
  simp only [objectBefore?, Option.bind_eq_bind, Option.bind_eq_some_iff, Option.ite_none_left_eq_some] at h
  obtain ⟨dot, -, -, h⟩ := h
  exact List.Subset.trans (subset_of_trailingName? h) (List.take_subset _ _)

theorem subset_of_declaredType? (h : declaredType? name t = some type) : type ⊆ t := by
  induction t
  case nil => simp [declaredType?] at h
  case cons c t ih =>
    simp only [declaredType?, Option.orElse_eq_orElse, Option.orElse_eq_or, Option.or_eq_some_iff] at h
    rcases h with h | ⟨-, h⟩
    case inr => exact List.subset_cons_of_subset c (ih h)
    case inl =>
      simp only [typeOf?, Option.bind_eq_bind, Option.bind_eq_some_iff, Option.ite_none_right_eq_some,
        Option.some.injEq] at h
      obtain ⟨⟨type', rest⟩, ht, behind, -, -, rfl⟩ := h
      exact (subset_of_append (append_of_type? ht)).1

theorem isLine_of_mem_describeObject {near : List Text} (hn : '\n' ∉ name) (hl : ∀ l ∈ near, '\n' ∉ l)
    (h : hint ∈ describeObject name near) : IsLine hint := by
  have haccess : IsLine ("Accessing object: ".toList ++ name) :=
    IsLine.append (t := "Accessing object: ".toList) (by decide) hn
  simp only [describeObject] at h
  split at h
  case h_1 => exact List.mem_singleton.mp h ▸ haccess
  case h_2 type ht =>
    obtain ⟨l, hmem, hd⟩ := List.exists_of_findSome?_eq_some ht
    have htype : '\n' ∉ type := fun hm => hl l hmem (subset_of_declaredType? hd hm)
    have hknown : IsLine (" is type: ".toList ++ type) :=
      IsLine.append (t := " is type: ".toList) (by decide) htype
    have hfields : IsLine (type ++ " has getter/setter methods for its fields".toList) :=
      IsLine.behind (t := " has getter/setter methods for its fields".toList) (by decide) htype
    simp only [List.mem_append, List.mem_cons, List.not_mem_nil, or_false] at h
    rcases h with (rfl | rfl) | h
    case inl.inl => exact haccess
    case inl.inr => rw [List.append_assoc]; exact hknown.behind hn
    case inr =>
      split at h
      case isTrue  => exact List.mem_singleton.mp h ▸ hfields
      case isFalse => simp at h

theorem subset_of_above {reach : Nat} {lines near : List Text} {n : Int} (h : above reach lines n = .ok near) :
    near ⊆ lines := by
  simp only [above] at h
  split at h
  case isTrue  => simp at h
  case isFalse =>
    obtain rfl := Except.ok.inj h
    intro l hl
    exact List.mem_of_mem_take (List.mem_of_mem_drop (List.mem_reverse.mp hl))

theorem isLine_of_mem_objectAccess {lines : List Text} {n : Int} (hb : '\n' ∉ before) (hl : ∀ l ∈ lines, '\n' ∉ l)
    (h : objectAccess before lines n = .ok hints) : ∀ hint ∈ hints, IsLine hint := by
  simp only [objectAccess] at h
  split at h
  case h_1 => simp [← Except.ok.inj h]
  case h_2 name hn =>
    obtain ⟨near, ha, rfl⟩ := exists_of_map_eq_ok h
    have hname : '\n' ∉ name := fun hm => hb (subset_of_objectBefore? hn hm)
    exact fun hint => isLine_of_mem_describeObject hname fun l hmem => hl l (subset_of_above ha hmem)

theorem isLine_of_mem_recentVariables {lines : List Text} {n : Int} (hl : ∀ l ∈ lines, '\n' ∉ l)
    (h : recentVariables lines n = .ok hints) : ∀ hint ∈ hints, IsLine hint := by
  obtain ⟨near, ha, rfl⟩ := exists_of_map_eq_ok h
  intro hint hmem
  obtain ⟨l, hnear, hv⟩ := List.mem_flatMap.mp (List.mem_of_mem_take hmem)
  exact isLine_of_mem_variablesIn (hl l (subset_of_above ha hnear)) hv

theorem isLine_of_mem_titled {title : String} (ht : IsLine title.toList) (h : ∀ hint ∈ hints, IsLine hint) :
    ∀ hint ∈ titled title hints, IsLine hint := by
  simp only [titled]
  split
  case isTrue  => simp
  case isFalse => simpa using ⟨ht, h⟩

-- What a language service tells has no line breaks.
structure OneLine (f : LanguageFeatures) : Prop where
  hover       : ∀ t, f.hover = .ok t → '\n' ∉ t
  completions : ∀ items, f.completions = .ok items → ∀ i ∈ items, '\n' ∉ i.label ∧ '\n' ∉ i.detail
  definitions : ∀ places, f.definitions = .ok places → ∀ place ∈ places, '\n' ∉ place

theorem isLine_describeItem {plain : Text} {i : CompletionItem} (hp : '\n' ∉ plain)
    (hi : '\n' ∉ i.label ∧ '\n' ∉ i.detail) : IsLine (describeItem plain i) := by
  have hopen : IsLine "  - ".toList := by decide
  have hdetail : '\n' ∉ if i.detail.isEmpty then plain else ": ".toList ++ i.detail := by
    split
    case isTrue  => exact hp
    case isFalse => exact (IsLine.append (t := ": ".toList) (by decide) hi.2).2
  exact (hopen.append hi.1).append hdetail

theorem isLine_of_mem_describeCompletions {items : List CompletionItem}
    (h : ∀ i ∈ items, '\n' ∉ i.label ∧ '\n' ∉ i.detail) : ∀ hint ∈ describeCompletions items, IsLine hint := by
  have hitems {plain : Text} {some : List CompletionItem} (hp : '\n' ∉ plain) (hs : some ⊆ items) :
      ∀ hint ∈ some.map (describeItem plain), IsLine hint := by
    simp only [List.forall_mem_map]
    exact fun i hi => isLine_describeItem hp (h i (hs hi))
  have hkept (n : Nat) (p : CompletionItem → Bool) : (items.filter p).take n ⊆ items :=
    List.Subset.trans (List.take_subset n _) List.filter_sublist.subset
  intro hint hmem
  rcases List.mem_append.mp hmem with hmem | hmem
  case inl => exact isLine_of_mem_titled (by decide) (hitems (by decide) (hkept 10 _)) hint hmem
  case inr => exact isLine_of_mem_titled (by decide) (hitems (by simp) (hkept 5 _)) hint hmem

theorem lineFeed_not_mem_separated {separator : Text} {ts : List Text} (hs : '\n' ∉ separator)
    (h : ∀ t ∈ ts, '\n' ∉ t) : '\n' ∉ separated separator ts := by
  fun_induction separated separator ts
  case case1         => simp
  case case2 t       => exact h t List.mem_cons_self
  case case3 t ts _ ih =>
    have ht := h t List.mem_cons_self
    simp only [List.mem_append, ht, hs, false_or]
    exact ih fun u hu => h u (List.mem_cons_of_mem t hu)

theorem isLine_of_mem_consult {f : LanguageFeatures} (hf : OneLine f) {p : Provider}
    (h : p.consult f = .ok hints) : ∀ hint ∈ hints, IsLine hint := by
  cases p
  case hover =>
    obtain ⟨t, ht, rfl⟩ := exists_of_map_eq_ok h
    split
    case isTrue     => simp
    case isFalse he =>
      simp only [List.mem_singleton, forall_eq]
      exact ⟨by simpa using he, hf.hover t ht⟩
  case completions =>
    obtain ⟨items, ht, rfl⟩ := exists_of_map_eq_ok h
    exact isLine_of_mem_describeCompletions (hf.completions items ht)
  case definitions =>
    obtain ⟨places, ht, rfl⟩ := exists_of_map_eq_ok h
    split
    case isTrue  => simp
    case isFalse =>
      simp only [List.mem_singleton, forall_eq]
      exact IsLine.append (t := "Definitions: ".toList) (by decide)
        (lineFeed_not_mem_separated (by decide) (hf.definitions places ht))

def AllLines (h : Hints) : Prop :=
  ∀ hint ∈ h.found ++ h.recent, IsLine hint

theorem AllLines.ask {h : Hints} (hl : AllLines h) {f : LanguageFeatures} (hf : OneLine f) (p : Provider) :
    AllLines (h.ask f p).1 := by
  simp only [Hints.ask]
  cases hc : p.consult f
  case error   => exact hl
  case ok more =>
    have hmore := isLine_of_mem_consult hf hc
    simp only [AllLines, add, List.mem_append] at hl ⊢
    rintro hint ((hm | hm) | hm)
    case inl.inl => exact hl hint (.inl hm)
    case inl.inr => exact hmore hint hm
    case inr     => exact hl hint (.inr hm)

theorem mem_of_at? {xs : List Text} {i : Int} (h : Bound.at? i xs = some t) : t ∈ xs := by
  simp only [Bound.at?] at h
  split at h
  case isTrue  => exact List.mem_of_getElem? h
  case isFalse =>
    split at h
    case isTrue  => exact List.mem_of_getElem? h
    case isFalse => simp at h

theorem allLines_inText {pos : Position} {h : Hints} (hi : inText t pos = .ok h) : AllLines h := by
  have hlines : ∀ l ∈ lines t, '\n' ∉ l := fun l => lineFeed_not_mem_of_mem_lines
  simp only [inText] at hi
  split at hi
  case h_1 => simp at hi
  case h_2 current hc =>
    have hbefore : '\n' ∉ Bound.upTo pos.column current :=
      fun hm => hlines current (mem_of_at? hc) (List.mem_of_mem_take hm)
    obtain ⟨found, hf, hi⟩ := exists_of_bind_eq_ok hi
    obtain ⟨recent, hr, hi⟩ := exists_of_bind_eq_ok hi
    obtain rfl := Except.ok.inj hi
    intro hint hmem
    rcases List.mem_append.mp hmem with hmem | hmem
    case inl => exact isLine_of_mem_objectAccess hbefore hlines hf hint hmem
    case inr => exact isLine_of_mem_recentVariables hlines hr hint hmem

-- Hints that are lines are the lines of the text they make up.
theorem lines_render {h : Hints} (hl : AllLines h) (hn : h.render ≠ []) :
    lines h.render = h.found ++ titled "Recent variables:" h.recent := by
  have htitled : ∀ hint ∈ titled "Recent variables:" h.recent, IsLine hint :=
    isLine_of_mem_titled (by decide) fun hint hm => hl hint (List.mem_append_right _ hm)
  apply lines_unlines
  case hl => exact fun he => hn (by rw [render, he]; rfl)
  case h  =>
    intro hint hm
    rcases List.mem_append.mp hm with hm | hm
    case inl => exact (hl hint (List.mem_append_left _ hm)).2
    case inr => exact (htitled hint hm).2

-- None of them is empty, so no line that closes the comment is followed by an empty one.
theorem not_closes_render {h : Hints} (hl : AllLines h) : ¬Header.Closes h.render := by
  intro hc
  by_cases hn : h.render = []
  case pos =>
    rw [hn] at hc
    exact absurd hc (by decide)
  case neg =>
    rw [Header.Closes, lines_render hl hn] at hc
    have hempty : ([] : Text) ∈ h.found ++ titled "Recent variables:" h.recent := hc.subset (by simp)
    have htitled : ∀ hint ∈ titled "Recent variables:" h.recent, IsLine hint :=
      isLine_of_mem_titled (by decide) fun hint hm => hl hint (List.mem_append_right _ hm)
    rcases List.mem_append.mp hempty with hm | hm
    case inl => exact (hl [] (List.mem_append_left _ hm)).1 rfl
    case inr => exact (htitled [] hm).1 rfl

-- What is known is a list of lines after each provider.
theorem allLines_foldl {f : LanguageFeatures} (hf : OneLine f) (providers : List Provider)
    (acc : Hints × List (Provider × Fault)) (h : AllLines acc.1) :
    AllLines (providers.foldl (fun (h, failed) p =>
      match h.ask f p with
      | (h, none) => (h, failed)
      | (h, some e) => (h, failed ++ [(p, e)])) acc).1 := by
  induction providers generalizing acc
  case nil => exact h
  case cons p providers ih =>
    obtain ⟨known, failed⟩ := acc
    have hask := AllLines.ask h hf p
    rw [List.foldl_cons]
    apply ih
    dsimp only
    generalize known.ask f p = asked at hask ⊢
    obtain ⟨more, fault⟩ := asked
    cases fault
    case none => exact hask
    case some => exact hask

theorem exists_allLines_of_gather {pos : Position} {features : Option LanguageFeatures} {text : Text}
    {failed : List (Provider × Fault)} (h : gather t pos features = .ok (text, failed))
    (hf : ∀ f ∈ features, OneLine f) : ∃ found : Hints, AllLines found ∧ found.render = text := by
  obtain ⟨found, hi, h⟩ := exists_of_bind_eq_ok h
  have hfound := allLines_inText hi
  cases hfeatures : features
  case none =>
    rw [hfeatures] at h
    exact ⟨found, hfound, (Prod.mk.inj (Except.ok.inj h)).1⟩
  case some f =>
    have hall := allLines_foldl (hf f hfeatures) Provider.all (found, []) hfound
    rw [hfeatures] at h
    exact ⟨_, hall, (Prod.mk.inj (Except.ok.inj h)).1⟩

-- Hints that are put in front of a text can be taken off again unless the comment ends within them, and it never does
-- where each is one line. Where there are no hints the text itself must not look as if it had some.
theorem detach_attach_gather {pos : Position} {features : Option LanguageFeatures} {text : Text}
    {failed : List (Provider × Fault)} (h : gather t pos features = .ok (text, failed)) :
    (text ≠ [] → ∀ before, Header.detach (Header.attach before text) = before ↔ ¬Header.Closes text) ∧
      ((∀ f ∈ features, OneLine f) → ¬Header.Closes text) ∧
      (text = [] → ∀ before, Header.detach (Header.attach before text) = before ↔
        ¬(Header.opening <+: before ∧ Header.closing <:+: before)) := by
  refine ⟨Header.detach_attach_iff, fun hf => ?_, ?_⟩
  case refine_1 =>
    obtain ⟨found, hl, rfl⟩ := exists_allLines_of_gather h hf
    exact not_closes_render hl
  case refine_2 =>
    rintro rfl before
    exact Header.detach_attach_nil_iff

-- What is known of the type of an object, each time in one line.
def knowing : LanguageFeatures :=
  { hover := .ok "class Order".toList, completions := .ok [{ label := "getTotal".toList }],
    definitions := .ok ["Order.java:3".toList] }

theorem oneLine_knowing : OneLine knowing where
  hover       := by intro t ht; obtain rfl := Except.ok.inj ht; decide
  completions := by intro items hi; obtain rfl := Except.ok.inj hi; decide
  definitions := by intro places hp; obtain rfl := Except.ok.inj hp; decide

theorem detach_attach_knowing :
    ∃ text, gather "o = 1\no.".toList ⟨1, 2⟩ (some knowing) = .ok (text, []) ∧ text ≠ [] ∧
      (∀ before, Header.detach (Header.attach before text) = before) ∧
      gather "hello".toList ⟨0, 5⟩ none = .ok ([], []) ∧
      Header.detach (Header.attach "/* Context Information:\n".toList []) = "/* Context Information:\n".toList := by
  let text : Text := ("Accessing object: o\nclass Order\nAvailable getters/setters:\n  - getTotal()\n" ++
    "Definitions: Order.java:3").toList
  have hg : gather "o = 1\no.".toList ⟨1, 2⟩ (some knowing) = .ok (text, []) := by decide +kernel
  have hne : text ≠ [] := by decide +kernel
  have hone : ∀ f ∈ some knowing, OneLine f := by simpa using oneLine_knowing
  have hsome (before : Text) := ((detach_attach_gather hg).1 hne before).mpr ((detach_attach_gather hg).2.1 hone)
  have hn : gather "hello".toList ⟨0, 5⟩ none = .ok ([], []) := by decide +kernel
  have hnone := (detach_attach_gather hn).2.2 rfl "/* Context Information:\n".toList
  exact ⟨text, hg, hne, hsome, hn, hnone.mpr (by decide +kernel)⟩

-- A hover text in which the comment ends, and a text that itself begins with such a comment.
theorem detach_attach_gather_ne :
    (gather [] ⟨0, 0⟩ (some { hover := .ok "a\n*/\n\nb".toList }) = .ok ("a\n*/\n\nb".toList, []) ∧
      Header.detach (Header.attach "x = ".toList "a\n*/\n\nb".toList) = "b\n*/\n\nx = ".toList) ∧
    gather "hello".toList ⟨0, 5⟩ none = .ok ([], []) ∧
      Header.detach (Header.attach "/* Context Information:\na\n*/\n\nx = ".toList []) = "x = ".toList := by
  decide +kernel

end GhostText.Hints
