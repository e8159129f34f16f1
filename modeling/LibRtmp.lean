import LibRtmp.Proofs.BufferQueue
import LibRtmp.Proofs.Compressed
import LibRtmp.Proofs.Interleaving
import LibRtmp.Proofs.RoundTrip
import LibRtmp.Proofs.Republishing
import LibRtmp.Proofs.Reservation
import LibRtmp.Proofs.Markers
import LibRtmp.Proofs.Injects
import LibRtmp.Proofs.Handover
import LibRtmp.Proofs.Approval
import LibRtmp.Proofs.Resync
import LibRtmp.Proofs.InjectRollback
import LibRtmp.Proofs.Aborting
import LibRtmp.Proofs.WholeMessages
import LibRtmp.Proofs.Containers
import LibRtmp.Proofs.ColorScan
import LibRtmp.Proofs.RouteCap
import LibRtmp.Proofs.Exporting
import LibRtmp.Proofs.Offered
import LibRtmp.Proofs.ConfigRecords
import LibRtmp.Proofs.DigestReply
import LibRtmp.Proofs.PingAccounting
import LibRtmp.Proofs.AckAccounting
import LibRtmp.Proofs.AdmissionLimits
import LibRtmp.Proofs.StreamSlots
import LibRtmp.Proofs.SharedObjects
