import Retrace.Trace.Site

/-!
# Caches tell the truth

A cache that holds only what the image gives is one that no lookup can be told apart from the
image by.
-/

namespace Retrace

/-- Every kept site is the one of the image. -/
def SiteCache.Valid (image : Image) : SiteCache → Prop
  | disabled => True
  | direct slots =>
    ∀ (i : Nat) address site, slots[i]? = some (some (address, site)) →
      image.siteAt address = .ok site

namespace SiteCache

variable {image : Image} {c : SiteCache} {address : UInt64} {site : Site}

theorem valid_empty (image : Image) (size : Nat) : (empty size).Valid image := by
  intro i address site h
  simp [Array.getElem?_replicate] at h

theorem Valid.store (h : c.Valid image) (hs : image.siteAt address = .ok site) :
    (c.store address site).Valid image := by
  cases c with
  | disabled => exact trivial
  | direct slots =>
      intro i a s hi
      simp only [Array.getElem?_setIfInBounds] at hi
      split at hi
      · split at hi
        · cases hi
          exact hs
        · simp at hi
      · exact h i a s hi

theorem Valid.get? (h : c.Valid image) (hg : c.get? address = some site) :
    image.siteAt address = .ok site := by
  cases c with
  | disabled => cases hg
  | direct slots =>
      simp only [SiteCache.get?] at hg
      split at hg
      · rename_i a s hs
        split at hg
        · rename_i ha
          cases hg
          exact ha ▸ h _ _ _ hs
        · simp at hg
      · simp at hg

theorem Valid.fetch (h : c.Valid image) (address : UInt64) :
    (c.fetch image address).1 = image.siteAt address ∧ (c.fetch image address).2.Valid image := by
  simp only [SiteCache.fetch]
  split
  · rename_i site hg
    exact ⟨(h.get? hg).symm, h⟩
  · split
    · rename_i site hs
      exact ⟨hs.symm, h.store hs⟩
    · rename_i o hs
      exact ⟨hs.symm, h⟩

end SiteCache

theorem Image.siteAt_eq_ok {image : Image} {address : UInt64} {site : Site} :
    image.siteAt address = .ok site ↔
      image.instructionAt address = .ok site.instruction ∧
        site.correlation = image.lookup address := by
  obtain ⟨i, c⟩ := site
  unfold siteAt
  cases image.instructionAt address with
  | ok j => simp [eq_comm]
  | error o => simp

end Retrace
