import PageSpeed.Lib.Unambiguous
import PageSpeed.Rewriter.LawyerMappings

/-!
What the signature of a lawyer says about it.
-/

namespace PageSpeed.Rewriter.DomainLawyer

variable {l l' : DomainLawyer} {r : DomainRef} {n : GoogleString} {d : Domain}

structure DomainView where
  name : GoogleString
  authorized : Bool
  rewriteDomain : Option GoogleString
  hostHeader : GoogleString
  originDomain : Option (Bool × GoogleString)
  shards : List GoogleString

def nameOf (l : DomainLawyer) (r : DomainRef) : GoogleString := ((l.deref r).map Domain.name).getD []

def view (l : DomainLawyer) (d : Domain) : DomainView where
  name := d.name
  authorized := d.authorized
  rewriteDomain := d.rewriteDomain.map l.nameOf
  hostHeader := d.hostHeader
  originDomain := d.originDomain.map fun r => (l.isProxyRef r, l.nameOf r)
  shards := d.shards.map l.nameOf

/-! The text of a view, and that it can be read. -/

def nameText (name : GoogleString) : GoogleString := name ++ ascii "_"

def authorizedText (authorized : Bool) : GoogleString := ascii (if authorized then "_a" else "_n") ++ ascii "_"

def rewriteText (name : GoogleString) : GoogleString := ascii "R:" ++ nameText name

def hostText (hostHeader : GoogleString) : GoogleString := ascii "H:" ++ (hostHeader ++ [124])

def originMark (isProxy : Bool) : GoogleString := ascii (if isProxy then "P:" else "O:")

def originText (origin : Bool × GoogleString) : GoogleString := originMark origin.1 ++ nameText origin.2

def shardText (name : GoogleString) : GoogleString := ascii "S:" ++ nameText name

def hostPart (hostHeader : GoogleString) : Option GoogleString := if hostHeader.isEmpty then none else some hostHeader

def fromOriginText (p : Option (Bool × GoogleString) × List GoogleString) : GoogleString :=
  (p.1.map originText).getD [] ++ p.2.flatMap shardText

def fromHostText (p : GoogleString × (Option (Bool × GoogleString) × List GoogleString)) : GoogleString :=
  ((hostPart p.1).map hostText).getD [] ++ fromOriginText p.2

def fromRewriteText (p : Option GoogleString × GoogleString × Option (Bool × GoogleString) × List GoogleString) :
    GoogleString := (p.1.map rewriteText).getD [] ++ fromHostText p.2

def DomainView.parts (v : DomainView) :
    GoogleString × Bool × Option GoogleString × GoogleString × Option (Bool × GoogleString) × List GoogleString :=
  (v.name, v.authorized, v.rewriteDomain, v.hostHeader, v.originDomain, v.shards)

def DomainView.text (v : DomainView) : GoogleString :=
  nameText v.parts.1 ++ (authorizedText v.parts.2.1 ++ fromRewriteText v.parts.2.2)

theorem domainSignature_eq (l : DomainLawyer) (d : Domain) : l.domainSignature d = (l.view d).text := by
  have hrewrite : (d.rewriteDomain.map (l.refSignature (ascii "R:"))).getD [] =
      ((l.view d).rewriteDomain.map rewriteText).getD [] := by
    unfold view
    cases d.rewriteDomain <;> simp [refSignature, rewriteText, nameText, nameOf]
  have horigin : (d.originDomain.map fun r => l.refSignature (ascii (if l.isProxyRef r then "P:" else "O:")) r).getD [] =
      ((l.view d).originDomain.map originText).getD [] := by
    unfold view
    cases d.originDomain <;> simp [refSignature, originText, originMark, nameText, nameOf]
  have hshards : d.shards.flatMap (l.refSignature (ascii "S:")) = (l.view d).shards.flatMap shardText := by
    unfold view
    dsimp only
    rw [List.flatMap_map]
    apply congrArg (List.flatMap · d.shards)
    funext r
    rw [refSignature, shardText, nameText, nameOf, List.append_assoc]
  have hhost : (if d.hostHeader.isEmpty then [] else ascii "H:" ++ d.hostHeader ++ ascii "|") =
      ((hostPart d.hostHeader).map hostText).getD [] := by
    unfold hostPart
    split_ifs
    · rfl
    · simp [hostText, show ascii "|" = [124] from rfl]
  rw [domainSignature, hrewrite, horigin, hshards, hhost, DomainView.text]
  simp only [nameText, authorizedText, fromRewriteText, fromHostText, fromOriginText, List.append_assoc]
  rfl

def tags : List GoogleString :=
  [ascii "_a_", ascii "_n_", ascii "-", ascii "H:", ascii "O:", ascii "P:", ascii "S:"]

/-- A name that ends in a slash, and in which no slash comes before a `_` and a tag. -/
def PlainName (name : GoogleString) : Prop :=
  name.getLast? = some 47 ∧ ∀ tag ∈ tags, ¬ (47 :: (ascii "_" ++ tag)) <:+: name

theorem reads_name : Reads nameText PlainName (Starts tags) :=
  Reads.until_mark (by decide) (by decide)

theorem reads_authorized : Reads authorizedText (fun _ => True) fun _ => True := by
  intro a b s t _ _ _ _ heq
  cases a <;> cases b
  · exact ⟨rfl, List.append_cancel_left heq⟩
  · exact absurd (List.cons.inj (List.cons.inj heq).2).1 (by decide)
  · exact absurd (List.cons.inj (List.cons.inj heq).2).1 (by decide)
  · exact ⟨rfl, List.append_cancel_left heq⟩

theorem reads_host : Reads hostText (fun hostHeader => (124 : UInt8) ∉ hostHeader) fun _ => True :=
  (Reads.until_letter 124).tagged _

theorem reads_originMark : Reads originMark (fun _ => True) fun _ => True := by
  intro a b s t _ _ _ _ heq
  cases a <;> cases b
  · exact ⟨rfl, List.append_cancel_left heq⟩
  · exact absurd (List.cons.inj heq).1 (by decide)
  · exact absurd (List.cons.inj heq).1 (by decide)
  · exact ⟨rfl, List.append_cancel_left heq⟩

theorem reads_origin : Reads originText (fun origin => True ∧ PlainName origin.2) (Starts tags) :=
  reads_originMark.seq reads_name fun _ _ _ _ => trivial

structure DomainView.Plain (v : DomainView) : Prop where
  name : PlainName v.name
  rewrite : ∀ n, v.rewriteDomain = some n → PlainName n
  host : (124 : UInt8) ∉ v.hostHeader
  origin : ∀ o, v.originDomain = some o → PlainName o.2
  shards : ∀ n ∈ v.shards, PlainName n

variable {ts : List GoogleString} {s : GoogleString}

theorem starts_map {α : Type} {f : α → GoogleString} (hf : ∀ a t, Starts ts (f a ++ t)) (hs : Starts ts s)
    (o : Option α) : Starts ts ((o.map f).getD [] ++ s) := by
  cases o with
  | none => exact hs
  | some a => exact hf a s

theorem starts_shardText (hts : ascii "S:" ∈ ts) (n s : GoogleString) : Starts ts (shardText n ++ s) := by
  rw [shardText, List.append_assoc]
  exact Starts.of_tag hts _

theorem starts_shards (hts : ascii "S:" ∈ ts) (hs : Starts ts s) (shards : List GoogleString) :
    Starts ts (shards.flatMap shardText ++ s) := by
  cases shards with
  | nil => exact hs
  | cons n shards =>
    rw [List.flatMap_cons, List.append_assoc]
    exact starts_shardText hts n _

theorem starts_originText (hO : ascii "O:" ∈ ts) (hP : ascii "P:" ∈ ts) (o : Bool × GoogleString) (s : GoogleString) :
    Starts ts (originText o ++ s) := by
  rw [originText, List.append_assoc]
  obtain ⟨p, n⟩ := o
  cases p
  · exact Starts.of_tag hO _
  · exact Starts.of_tag hP _

theorem starts_hostText (hts : ascii "H:" ∈ ts) (h s : GoogleString) : Starts ts (hostText h ++ s) := by
  rw [hostText, List.append_assoc]
  exact Starts.of_tag hts _

/-! The parts of a text, the last one first. -/

theorem reads_shards : Reads (fun l : List GoogleString => l.flatMap shardText) (fun l => ∀ n ∈ l, PlainName n)
    (Starts [ascii "-"]) := by
  apply Reads.many (reads_name.tagged _)
  · intro n s t _ ht
    rw [List.append_assoc]
    exact ht.ne (by decide) (by decide) (by decide) _
  · intro s hs
    exact hs.mono (by decide)
  · intro n s _
    exact starts_shardText (by decide) n s

theorem reads_fromOrigin : Reads fromOriginText
    (fun p => (∀ o, p.1 = some o → True ∧ PlainName o.2) ∧ ∀ n ∈ p.2, PlainName n) (Starts [ascii "-"]) := by
  have horigin : Reads originText (fun o => True ∧ PlainName o.2) (Starts [ascii "S:", ascii "-"]) :=
    reads_origin.mono fun s hs => hs.mono (by decide)
  apply (horigin.option _).seq reads_shards
  · intro shards s _ hs
    exact starts_shards (by decide) (hs.mono (by decide)) shards
  · rintro ⟨p, n⟩ s t _ ht
    rw [originText, List.append_assoc]
    dsimp only
    cases p
    · exact ht.ne (by decide) (by decide) (by decide) _
    · exact ht.ne (by decide) (by decide) (by decide) _

theorem starts_fromOriginText (hO : ascii "O:" ∈ ts) (hP : ascii "P:" ∈ ts) (hS : ascii "S:" ∈ ts) (hs : Starts ts s)
    (p : Option (Bool × GoogleString) × List GoogleString) : Starts ts (fromOriginText p ++ s) := by
  rw [fromOriginText, List.append_assoc]
  exact starts_map (starts_originText hO hP) (starts_shards hS hs p.2) p.1

theorem hostPart_injective : Function.Injective hostPart := by
  intro a b h
  unfold hostPart at h
  cases a with
  | nil =>
    cases b with
    | nil => rfl
    | cons y b => cases h
  | cons x a =>
    cases b with
    | nil => cases h
    | cons y b => exact Option.some_inj.mp h

theorem reads_fromHost : Reads fromHostText
    (fun p => (∀ h, hostPart p.1 = some h → (124 : UInt8) ∉ h) ∧
      (∀ o, p.2.1 = some o → True ∧ PlainName o.2) ∧ ∀ n ∈ p.2.2, PlainName n) (Starts [ascii "-"]) := by
  have hhost : Reads hostText (fun h => (124 : UInt8) ∉ h) (Starts [ascii "O:", ascii "P:", ascii "S:", ascii "-"]) :=
    reads_host.mono fun _ _ => trivial
  apply ((hhost.option _).comap hostPart_injective).seq reads_fromOrigin
  · intro p s _ hs
    exact starts_fromOriginText (by decide) (by decide) (by decide) (hs.mono (by decide)) p
  · intro h s t _ ht
    rw [hostText, List.append_assoc]
    exact ht.ne (by decide) (by decide) (by decide) _

theorem starts_fromHostText (hH : ascii "H:" ∈ ts) (hO : ascii "O:" ∈ ts) (hP : ascii "P:" ∈ ts) (hS : ascii "S:" ∈ ts)
    (hs : Starts ts s) (p : GoogleString × (Option (Bool × GoogleString) × List GoogleString)) :
    Starts ts (fromHostText p ++ s) := by
  rw [fromHostText, List.append_assoc]
  exact starts_map (starts_hostText hH) (starts_fromOriginText hO hP hS hs p.2) _

theorem reads_fromRewrite : Reads fromRewriteText
    (fun p => (∀ n, p.1 = some n → PlainName n) ∧ (∀ h, hostPart p.2.1 = some h → (124 : UInt8) ∉ h) ∧
      (∀ o, p.2.2.1 = some o → True ∧ PlainName o.2) ∧ ∀ n ∈ p.2.2.2, PlainName n) (Starts [ascii "-"]) := by
  have hrewrite : Reads rewriteText PlainName (Starts [ascii "H:", ascii "O:", ascii "P:", ascii "S:", ascii "-"]) :=
    (reads_name.tagged _).mono fun s hs => hs.mono (by decide)
  apply (hrewrite.option _).seq reads_fromHost
  · intro p s _ hs
    exact starts_fromHostText (by decide) (by decide) (by decide) (by decide) (hs.mono (by decide)) p
  · intro n s t _ ht
    rw [rewriteText, List.append_assoc]
    exact ht.ne (by decide) (by decide) (by decide) _

theorem starts_authorizedText (authorized : Bool) (s : GoogleString) : Starts tags (authorizedText authorized ++ s) := by
  cases authorized
  · exact Starts.of_tag (show ascii "_n_" ∈ tags by decide) s
  · exact Starts.of_tag (show ascii "_a_" ∈ tags by decide) s

theorem parts_injective : Function.Injective DomainView.parts := by
  intro v w h
  cases v
  cases w
  simp only [DomainView.parts, Prod.mk.injEq] at h
  obtain ⟨rfl, rfl, rfl, rfl, rfl, rfl⟩ := h
  rfl

theorem reads_text : Reads DomainView.text DomainView.Plain (Starts [ascii "-"]) := by
  have hparts := (reads_name.seq (reads_authorized.seq reads_fromRewrite fun _ _ _ _ => trivial)
    (by
      rintro ⟨authorized, p⟩ s _ _
      rw [List.append_assoc]
      exact starts_authorizedText authorized _)).comap parts_injective
  intro v w s t hv hw hs ht heq
  have hok : ∀ v : DomainView, v.Plain → PlainName v.parts.1 ∧ True ∧ (∀ n, v.parts.2.2.1 = some n → PlainName n) ∧
      (∀ h, hostPart v.parts.2.2.2.1 = some h → (124 : UInt8) ∉ h) ∧
        (∀ o, v.parts.2.2.2.2.1 = some o → True ∧ PlainName o.2) ∧ ∀ n ∈ v.parts.2.2.2.2.2, PlainName n := by
    intro v hv
    refine ⟨hv.name, trivial, hv.rewrite, ?_, fun o ho => ⟨trivial, hv.origin o ho⟩, hv.shards⟩
    intro h hh
    unfold hostPart at hh
    split_ifs at hh
    obtain rfl := Option.some_inj.mp hh
    exact hv.host
  exact hparts v w s t (hok v hv) (hok w hw) hs ht heq

/-! The signature of a lawyer. -/

def views (l : DomainLawyer) : List DomainView := l.domainMap.entries.map fun e => l.view e.2

theorem signature_eq (l : DomainLawyer) : l.signature =
    (l.views.flatMap fun v => ascii "D:" ++ (v.text ++ ascii "-")) ++
      if l.proxySuffix.isEmpty then [] else ascii ",PS:" ++ l.proxySuffix := by
  rw [signature, views, List.flatMap_map]
  simp only [domainSignature_eq, List.append_assoc]

theorem views_eq_of_signature (h : l.signature = l'.signature) (hl : ∀ v ∈ l.views, v.Plain)
    (hl' : ∀ v ∈ l'.views, v.Plain) : l.views = l'.views := by
  have hreads : Reads (fun views : List DomainView => views.flatMap fun v => ascii "D:" ++ (v.text ++ ascii "-"))
      (fun views => ∀ v ∈ views, v.Plain) fun t => t.head? ≠ some 68 := by
    apply (reads_text.closedBy.tagged (ascii "D:")).many
    · intro v s t _ ht heq
      rw [← heq] at ht
      exact ht rfl
    · exact fun _ _ => trivial
    · exact fun _ _ _ => trivial
  have hsuffix : ∀ l : DomainLawyer,
      (if l.proxySuffix.isEmpty then [] else ascii ",PS:" ++ l.proxySuffix).head? ≠ some 68 := by
    intro l
    split_ifs
    · exact nofun
    · exact fun hhead => absurd (Option.some_inj.mp hhead) (by decide)
  rw [signature_eq, signature_eq] at h
  exact (hreads l.views l'.views _ _ hl hl' (hsuffix l) (hsuffix l') h).1

structure SeparatorsFree (l : DomainLawyer) : Prop where
  names : ∀ n ∈ l.domainMap.keys, ∀ tag ∈ tags, ¬ (47 :: (ascii "_" ++ tag)) <:+: n
  hosts : ∀ e ∈ l.domainMap.entries, (124 : UInt8) ∉ e.2.hostHeader

theorem nameOf_eq (h : Closed l) (hr : Points l r) : l.nameOf r = r.name := by
  obtain ⟨d, hd, hderef⟩ := get_of_points hr
  rw [nameOf, hderef, Option.map_some, Option.getD_some, h.named r.name d hd]

theorem plain_view (h : Closed l) (hfree : SeparatorsFree l) (hd : l.domainMap.get n = some d) : (l.view d).Plain := by
  have hkey : ∀ m ∈ l.domainMap.keys, PlainName m := fun m hm => ⟨h.slash m hm, hfree.names m hm⟩
  have hpointer : ∀ r ∈ Domain.pointers d, PlainName (l.nameOf r) := by
    intro r hr
    have hpoints := h.pointers n d hd r hr
    rw [nameOf_eq h hpoints]
    exact hkey _ hpoints.2
  constructor
  · have hname := h.named n d hd
    exact hkey d.name ((SortedMap.mem_keys _ _).mpr (by rw [hname, hd]; rfl))
  · intro m hm
    obtain ⟨r, hr, rfl⟩ := Option.map_eq_some_iff.mp hm
    exact hpointer r (by simp [Domain.pointers, hr])
  · exact hfree.hosts (n, d) (Records.mem_of_find hd)
  · intro o ho
    obtain ⟨r, hr, rfl⟩ := Option.map_eq_some_iff.mp ho
    exact hpointer r (by simp [Domain.pointers, hr])
  · intro m hm
    obtain ⟨r, hr, rfl⟩ := List.mem_map.mp hm
    exact hpointer r (by simp [Domain.pointers, hr])

theorem plain_views (h : Closed l) (hfree : SeparatorsFree l) : ∀ v ∈ l.views, v.Plain := by
  intro v hv
  obtain ⟨e, he, rfl⟩ := List.mem_map.mp hv
  exact plain_view h hfree (Records.find_of_mem l.domainMap.nodup he)

theorem find?_views (h : Closed l) (n : GoogleString) :
    (l.domainMap.get n).map l.view = l.views.find? fun v => v.name = n := by
  have hnamed : ∀ e ∈ l.domainMap.entries, e.2.name = e.1 :=
    fun e he => h.named e.1 e.2 (Records.find_of_mem l.domainMap.nodup he)
  unfold SortedMap.get views
  generalize l.domainMap.entries = entries at hnamed ⊢
  induction entries with
  | nil => rfl
  | cons e entries ih =>
    have hname := hnamed e List.mem_cons_self
    have hrest := ih fun e he => hnamed e (List.mem_cons_of_mem _ he)
    rw [Records.find_cons, List.map_cons, List.find?_cons]
    have hview : (l.view e.2).name = e.1 := hname
    rw [hview]
    by_cases hn : e.1 = n
    · rw [if_pos hn, decide_eq_true hn]
      rfl
    · rw [if_neg hn, decide_eq_false hn]
      exact hrest

end PageSpeed.Rewriter.DomainLawyer
