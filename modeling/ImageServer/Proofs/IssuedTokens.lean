import ImageServer.Proofs.TokenBlocks

/-! Tokens that are used as they were issued. From the encryption of a text to the comparison of two times,
nothing is lost: the gate opens for six hours, to the paths that name the file. -/

namespace ImageServer.ThumbnailGate

/-- Both the time and the deadline are numbers that a double holds. -/
theorem expiry_issued (issue : Issue) (dated : issue.time ≤ 8640000000000000) :
    expiry issue.timeStr = .fin ((issue.time + 21600000 : ℤ) : ℚ) := by
  have time : Number.nearest (issue.time : ℚ) = .fin issue.time := by
    have whole := @Number.nearest_whole (issue.time : ℤ) (by rw [abs_lt]; omega)
    exact_mod_cast whole
  have deadline := @Number.nearest_whole (issue.time + 21600000 : ℤ) (by rw [abs_lt]; omega)
  have sum : Number.fin (issue.time : ℚ) + 21600000 = Number.nearest ((issue.time + 21600000 : ℤ) : ℚ) := by
    push_cast
    rfl
  rw [expiry, Issue.timeStr, JavaScript.parseInt_toDigits, time, sum, deadline]

/-- An issued token opens every path with its file in it until six hours after its time, and then no path,
and it never opens a path without the file. -/
theorem issued_opens_iff (crypto : Crypto) (issue : Issue) (readable : Readable crypto {issue})
    (dated : issue.time ≤ 8640000000000000) (parse : Bytes → Except JavaScript.Error Url) (url : Bytes) (pathname : Text)
    (parsed : parse url = .ok ⟨some pathname, some (issue.token crypto)⟩) (now : ℤ) :
    Forwards (crypto.outside parse) now url ↔ now ≤ issue.time + 21600000 ∧ issue.fileId <:+: pathname := by
  have deadline := expiry_le (expiry_issued issue dated) now
  rw [issued_forwards_iff readable (Set.mem_singleton issue) parse parsed, deadline, Int.cast_le]

/-- At the end of its six hours the token still opens the path. -/
theorem fresh_opens :
    Forwards (sample.outside fun _ => .ok ⟨some "/p/photo-56789.jpg".toList, some (fresh.token sample)⟩) 1500021600000
      (bytes "/p/photo-56789.jpg") := by
  have readable : Readable sample {fresh} := by
    intro issue member
    obtain rfl := Set.mem_singleton_iff.mp member
    exact sample_readable fresh (by simp)
  refine (issued_opens_iff sample fresh readable (by decide) _ _ "/p/photo-56789.jpg".toList rfl _).mpr ⟨by decide, ?_⟩
  exact ⟨"/p/".toList, [], rfl⟩

end ImageServer.ThumbnailGate
