import DocStore.Main
import DocStore.Proofs.Commuting
import DocStore.Proofs.Console.Conversations
import DocStore.Proofs.Decimal.ExactLiterals
import DocStore.Proofs.EqualityBuckets
import DocStore.Proofs.LineSpelling
import DocStore.Proofs.LiteralQueries
import DocStore.Proofs.RangeScans
import DocStore.Proofs.Storage.FileSaves
import DocStore.Proofs.Storage.TornSnapshots
import DocStore.Proofs.View.Countdown
import DocStore.Proofs.View.Dump
