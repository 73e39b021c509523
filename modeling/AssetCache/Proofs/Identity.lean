import AssetCache.Proofs.CacheFirst
import AssetCache.Proofs.Manifest
import AssetCache.Proofs.Url.Resource

namespace AssetCache

variable {s : String} {u u' origin url url' : Url} {entry entry' : String}

def beforeHash (text : String) : String := String.ofList (text.toList.takeWhile (· != '#'))

def Url.fragmentText (u : Url) : String := String.ofList (Url.marked '#' u.fragment)

namespace Key

theorem url_of_clean (h : u.IsClean) (method : Http.Method) :
    (Key.of method u).url = String.ofList u.resource :=
  congrArg String.ofList h.chars_withoutFragment

theorem text_eq (h : u.IsClean) (method : Http.Method) :
    u.text = (Key.of method u).url ++ u.fragmentText := by
  rw [url_of_clean h, Url.fragmentText, ← String.ofList_append, ← Url.chars_eq_resource, Url.text]

theorem hash_not_mem (h : u.IsClean) (hhttp : u.isHttp = true) (method : Http.Method) :
    '#' ∉ (Key.of method u).url.toList := by
  rw [url_of_clean h, String.toList_ofList]
  exact h.hash_not_mem hhttp

theorem url_eq_beforeHash (h : u.IsClean) (hhttp : u.isHttp = true) (method : Http.Method) :
    (Key.of method u).url = beforeHash u.text := by
  rw [url_of_clean h, beforeHash, Url.text, String.toList_ofList, h.takeWhile_chars hhttp]

theorem of_eq_iff (h : u.IsClean) (hhttp : u.isHttp = true) (h' : u'.IsClean)
    (hhttp' : u'.isHttp = true) (method method' : Http.Method) :
    Key.of method u = Key.of method' u' ↔
      method.name = method'.name ∧ beforeHash u.text = beforeHash u'.text := by
  rw [← url_eq_beforeHash h hhttp method, ← url_eq_beforeHash h' hhttp' method']
  exact Iff.of_eq (Key.mk.injEq ..)

end Key

namespace Manifest

theorem entryUrl_of_join [Idna] (hcolon : ':' ∈ entry.toList) (hjoin : origin.join entry = .ok url)
    (hhttp : url.isHttp = true) : entryUrl origin entry = .ok url := by
  have hshown : Text.isAllBlank entry = false :=
    List.all_eq_false.mpr ⟨':', hcolon, by decide⟩
  rw [entryUrl, hshown, if_neg Bool.false_ne_true, hjoin]
  exact if_pos hhttp

theorem resolve_pair [Idna] (hurl : entryUrl origin entry = .ok url)
    (hurl' : entryUrl origin entry' = .ok url') (hkey : Key.of .get url' = Key.of .get url) :
    Manifest.resolve origin [entry, entry'] = .error (.duplicateEntry url'.text) := by
  have hseen : (Request.get url').key ∈ [(Request.get url).key] := List.mem_singleton.mpr hkey
  rw [Manifest.resolve, resolveAfter_of_asks ⟨url, hurl, rfl⟩ List.not_mem_nil,
    resolveAfter_of_stops (.repeated hurl' hseen)]
  rfl

end Manifest

/-- What may stand behind a hash sign that follows `s`, which is read as `u`, makes no difference: the
address that is read has the keys of `u`, to a manifest for any web site it is the same entry, and it
is answered with what is stored for `u`. -/
structure IgnoresFragment [Idna] (s : String) (u : Url) (f : String) (u' : Url) : Prop where
  read : Url.parse (s ++ "#" ++ f) = .ok u'
  key : ∀ method, Key.of method u' = Key.of method u
  duplicate : ∀ origin : Url, origin.isHttp = true → ∃ v, origin.join (s ++ "#" ++ f) = .ok v ∧
    Manifest.resolve origin [s, s ++ "#" ++ f] = .error (.duplicateEntry v.text)
  hit : ∀ (net : Network) (m : Manager) (h : Handle) (r : Request) (response : Response),
    r.url = u' → m.bucket.1 = .ok h →
    (m.bucket.2.entries h).get? (Key.of r.method u) = some response →
    Manager.Hit response m (Manager.fetch net r m)

theorem exists_ignoresFragment [Idna] (hread : Url.parse s = .ok u) (hhttp : u.isHttp = true)
    (hplain : '#' ∉ s.toList) (hlast : ∀ c, s.toList.getLast? = some c → 0x20 < c.toNat)
    (f : String) : ∃ u', IgnoresFragment s u f u' := by
  obtain ⟨f', hread'⟩ := Url.parse_hash hread hhttp hplain hlast f
  refine ⟨{ u with fragment := some f' }, hread', fun method => Key.of_withFragment method u _,
    fun origin horigin => ?_, fun net m h r response hr ho hfound => ?_⟩
  · obtain ⟨v, hv, hjoin, f'', hjoin'⟩ := Url.join_hash hread hhttp hplain hlast horigin f
    have hcolon := Url.colon_of_parse hread
    refine ⟨_, hjoin', Manifest.resolve_pair (Manifest.entryUrl_of_join hcolon hjoin hv)
      (Manifest.entryUrl_of_join ?_ hjoin' hv) ?_⟩
    · rw [String.toList_append, String.toList_append]
      exact List.mem_append_left _ (List.mem_append_left _ hcolon)
    · exact (Key.of_withFragment .get v _).trans (Key.of_withFragment .get v _).symm
  · refine Manager.fetch_of_found ho ?_
    rw [Request.key, hr, Key.of_withFragment]
    exact hfound

/-- A key leaves out the fragment and nothing else. Behind a web address that stands without one,
whatever follows a hash sign leaves the key, the place in a manifest and the stored answer as they
are. The URL of a key is the text of the address up to its first hash sign, with nothing but the
fragment behind it. So two requests for web addresses have one key just if they have one method, in
the same letters, and the texts of their addresses agree up to the first hash sign; and requests with
two methods never do. -/
theorem key_leaves_out_the_fragment [Idna] :
    (∀ (s f : String) (u : Url), Url.parse s = .ok u → u.isHttp = true → '#' ∉ s.toList →
      (∀ c, s.toList.getLast? = some c → 0x20 < c.toNat) → ∃ u', IgnoresFragment s u f u') ∧
    (∀ u : Url, u.IsRead → u.isHttp = true → ∀ method,
      '#' ∉ (Key.of method u).url.toList ∧ u.text = (Key.of method u).url ++ u.fragmentText) ∧
    (∀ u u' : Url, u.IsRead → u.isHttp = true → u'.IsRead → u'.isHttp = true → ∀ method method',
      Key.of method u = Key.of method' u' ↔
        method.name = method'.name ∧ beforeHash u.text = beforeHash u'.text) ∧
    ∀ r r' : Request, r.method.name ≠ r'.method.name → r.key ≠ r'.key := by
  refine ⟨fun s f u hread hhttp hplain hlast => exists_ignoresFragment hread hhttp hplain hlast f,
    fun u hread hhttp method => ?_, fun u u' hread hhttp hread' hhttp' => ?_,
    fun r r' hmethod hkey => hmethod (congrArg Key.method hkey)⟩
  · have hclean := hread.clean hhttp
    exact ⟨Key.hash_not_mem hclean hhttp method, Key.text_eq hclean method⟩
  · exact Key.of_eq_iff (hread.clean hhttp) hhttp (hread'.clean hhttp') hhttp'

/-- An address with every part it can have, written not as it is read, with and without a fragment
that has a hash sign of its own. -/
theorem key_of_page_with_fragment :
    let _ : Idna :=
      ⟨fun name => if name = "Bücher.b".toList then some "xn--bcher-kva.b".toList else none⟩
    let text := "http://u:p@B%C3%BCcher.b:80/x/../y?q=1"
    let url : Url := ⟨"http".toList, some ⟨"u:p".toList, "xn--bcher-kva.b".toList, none⟩,
      .segments ["y".toList], some "q=1".toList, none⟩
    let marked : Url := { url with fragment := some "top#2".toList }
    IgnoresFragment text url "top#2" marked ∧
      Key.of .get marked = ⟨"GET", "http://u:p@xn--bcher-kva.b/y?q=1"⟩ ∧
      marked.text = (Key.of .get marked).url ++ "#top#2" ∧
      Key.of .get marked = Key.of .get url ∧
      (⟨⟨"get", by decide⟩, url, [], none⟩ : Request).key ≠ (Request.get url).key := by
  intro _ text url marked
  obtain ⟨hignores, htext, heq, hmethods⟩ := key_leaves_out_the_fragment
  have hread : Url.parse text = .ok url := by decide +kernel
  have hread' : Url.parse (text ++ "#" ++ "top#2") = .ok marked := by decide +kernel
  have hlast : ∀ c, text.toList.getLast? = some c → 0x20 < c.toNat := by
    intro c hc
    have hone : text.toList.getLast? = some '1' := by decide +kernel
    cases hone.symm.trans hc
    decide
  obtain ⟨u', hu'⟩ := hignores text "top#2" url hread (by decide) (by decide +kernel) hlast
  have hsame : u' = marked := Except.ok.inj (hu'.read.symm.trans hread')
  subst hsame
  refine ⟨hu', by decide +kernel, ?_, ?_, hmethods _ _ (by decide)⟩
  · exact (htext marked (.parse hread') (by decide) .get).2
  · exact (heq marked url (.parse hread') (by decide) (.parse hread) (by decide) .get .get).mpr
      ⟨rfl, by decide +kernel⟩

end AssetCache
