import SeededStreams.Steps
import SeededStreams.Twister.Json
import SeededStreams.Xoshiro.Json
import SeededStreams.KnownAnswer.Json
import SeededStreams.Main
import SeededStreams.Proofs.Twister.Mixing
import SeededStreams.Proofs.Twister.Sequence
import SeededStreams.Proofs.Twister.Run
import SeededStreams.Proofs.Twister.LiveBits
import SeededStreams.Proofs.Twister.Checkpoints
import SeededStreams.Proofs.Twister.Draws
import SeededStreams.Proofs.Twister.Seeds
import SeededStreams.Proofs.Twister.KeyRounds
import SeededStreams.Proofs.Twister.KeyRing
import SeededStreams.Proofs.Twister.Keys
import SeededStreams.Proofs.Xoshiro.Draws
import SeededStreams.Proofs.SplitMix.Scramble
import SeededStreams.Proofs.SplitMix.Period
import SeededStreams.Proofs.Xoshiro.Spread
import SeededStreams.Proofs.Xoshiro.Pauses
import SeededStreams.Proofs.Json.Numbers
import SeededStreams.Proofs.Json.Strings
import SeededStreams.Proofs.Json.Writing
import SeededStreams.Proofs.Json.Records
import SeededStreams.Proofs.Binary64.Rounding
import SeededStreams.Proofs.Binary64.Values
import SeededStreams.Proofs.Binary64.Nearest
import SeededStreams.Proofs.Twister.Pauses
import SeededStreams.Proofs.Twister.Counting
import SeededStreams.Proofs.Decimal.Shortest
import SeededStreams.Proofs.Draw.Reals
import SeededStreams.Proofs.Draw.Ranges
import SeededStreams.Proofs.Draw.Conversions
import SeededStreams.Proofs.Json.Fractions
import SeededStreams.Proofs.Draw.Rereading
import SeededStreams.Proofs.KnownAnswer.Json
import SeededStreams.Proofs.Stream.Draws
import SeededStreams.Proofs.Stream.Refusals
import SeededStreams.Proofs.Stream.MixedKinds
import SeededStreams.Proofs.KnownAnswer.Comparison
import SeededStreams.Proofs.KnownAnswer.FirstDifference
import SeededStreams.Proofs.Draw.Digest
import SeededStreams.Proofs.KnownAnswer.Fingerprints
import SeededStreams.Proofs.KnownAnswer.Reals
import SeededStreams.Proofs.Json.Objects
import SeededStreams.Proofs.Source.Members
import SeededStreams.Proofs.Json.Texts
import SeededStreams.Proofs.Draw.Integers
import SeededStreams.Proofs.KnownAnswer.Integers
import SeededStreams.Proofs.Word.Texts
import SeededStreams.Proofs.Word.Grammar
import SeededStreams.Proofs.CommandLine.Arguments
import SeededStreams.Proofs.CommandLine.Options
import SeededStreams.Proofs.CommandLine.Invocations
import SeededStreams.Proofs.CommandLine.Output
import SeededStreams.Proofs.CommandLine.Agreement
import SeededStreams.Proofs.Json.Documents
import SeededStreams.Proofs.Json.Meanings
import SeededStreams.Proofs.Json.Skipping
import SeededStreams.Proofs.Json.Words
import SeededStreams.Proofs.Json.Forms
import SeededStreams.Proofs.Source.Documents
import SeededStreams.Proofs.Stream.Documents
import SeededStreams.Proofs.Twister.Documents
import SeededStreams.Proofs.Stream.Literals
