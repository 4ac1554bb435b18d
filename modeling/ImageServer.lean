import ImageServer.Exec
import ImageServer.LuaPattern
import ImageServer.Separator
import ImageServer.Pcre
import ImageServer.Number
import ImageServer.PathSimbol
import ImageServer.Shell
import ImageServer.Image
import ImageServer.Scaling
import ImageServer.ImageProcessor
import ImageServer.Thumbnail
import ImageServer.ThumbnailNowatermark
import ImageServer.UploadFront
import ImageServer.ThumbnailServer
import ImageServer.ThumbnailScaling
import ImageServer.Folders
import ImageServer.Runs
import ImageServer.WriteOnce
import ImageServer.Schedules
import ImageServer.InPlace
import ImageServer.ThumbnailWorkers
import ImageServer.CompressImage
import ImageServer.Multipart
import ImageServer.Zmsg
import ImageServer.CompressWorker
import ImageServer.MessageRouter
import ImageServer.ImageSystem
import ImageServer.SenderIdentities
import ImageServer.WandOwnership
import ImageServer.ImageLocator
import ImageServer.SuffixRewrite
import ImageServer.RoutedImages
import ImageServer.JavaScript
import ImageServer.Shop
import ImageServer.ShopCache
import ImageServer.ShopTime
import ImageServer.ThumbnailGate
import ImageServer.Utf8
import ImageServer.Ecb
import ImageServer.TokenCipher
import ImageServer.Proofs.PatternMatching
import ImageServer.Proofs.Splitting
import ImageServer.Proofs.ComponentPatterns
import ImageServer.Proofs.ThumbInfo
import ImageServer.Proofs.RequestGrammar
import ImageServer.Proofs.GalleryImages
import ImageServer.Proofs.Generation
import ImageServer.Proofs.CacheKey
import ImageServer.Proofs.ThumbnailStore
import ImageServer.Proofs.OlderStore
import ImageServer.Proofs.StoreBound
import ImageServer.Proofs.ShellCommands
import ImageServer.Proofs.RejectedRequests
import ImageServer.Proofs.Watermark
import ImageServer.Proofs.Scaling
import ImageServer.Proofs.Geometry
import ImageServer.Proofs.Placement
import ImageServer.Proofs.ThumbnailScaling
import ImageServer.Proofs.Answers
import ImageServer.Proofs.ThumbnailRace
import ImageServer.Proofs.OverlappingSaves
import ImageServer.Proofs.Compression
import ImageServer.Proofs.Quoting
import ImageServer.Proofs.CompressedPaths
import ImageServer.Proofs.SavedNames
import ImageServer.Proofs.Scripts
import ImageServer.Proofs.UploadFront
import ImageServer.Proofs.Envelopes
import ImageServer.Proofs.MessageFiles
import ImageServer.Proofs.Hops
import ImageServer.Proofs.WorkerStatus
import ImageServer.Proofs.MessageIntegrity
import ImageServer.Proofs.MessageLiveness
import ImageServer.Proofs.WorkerRuns
import ImageServer.Proofs.Resending
import ImageServer.Proofs.ServedCalls
import ImageServer.Proofs.ImageSystem
import ImageServer.Proofs.ImageSystemLiveness
import ImageServer.Proofs.Announcements
import ImageServer.Proofs.IdentityCollisions
import ImageServer.Proofs.WandOwnership
import ImageServer.Proofs.Rounding
import ImageServer.Proofs.NumberTexts
import ImageServer.Proofs.SizeStrings
import ImageServer.Proofs.ShopRouting
import ImageServer.Proofs.ReadBack
import ImageServer.Proofs.CacheTransparency
import ImageServer.Proofs.Staleness
import ImageServer.Proofs.ShopAnswers
import ImageServer.Proofs.TokenExpiry
import ImageServer.Proofs.TokenScope
import ImageServer.Proofs.RouterGrammar
import ImageServer.Proofs.OlderAgreement
import ImageServer.Proofs.RoutedImages
import ImageServer.Proofs.UploadRouting
import ImageServer.Proofs.SuffixStripping
import ImageServer.Proofs.TokenBlocks
import ImageServer.Proofs.IssuedTokens
